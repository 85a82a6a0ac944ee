/-!
# Blank characters

The white space of Unicode: the characters with the property `White_Space`.

* `trim_eq_nil_iff`: nothing is left of a text after trimming exactly when it is blank.
* `trim_blank_append`, `trim_append_blank`: blank text at either end does not count.
* `exists_eq_trim`: trimming takes nothing but blank text away.
* `trim_eq_self_iff`: a text stays as it is if neither of its ends is blank.
-/

namespace AccessGuard

/-- The ranges of `White_Space`, first and last code point. -/
def blankRanges : List (Nat × Nat) :=
  [(0x09, 0x0D), (0x20, 0x20), (0x85, 0x85), (0xA0, 0xA0), (0x1680, 0x1680), (0x2000, 0x200A),
    (0x2028, 0x2029), (0x202F, 0x202F), (0x205F, 0x205F), (0x3000, 0x3000)]

/-- Is a character white space? -/
def isBlank (c : Char) : Bool :=
  blankRanges.any fun r => decide (r.1 ≤ c.toNat) && decide (c.toNat ≤ r.2)

/-- A text without blank characters at either end. -/
def trim (cs : List Char) : List Char :=
  ((cs.dropWhile isBlank).reverse.dropWhile isBlank).reverse

/-- Only blank characters, or none at all. -/
def allBlank (cs : List Char) : Bool := cs.all isBlank

theorem dropWhile_isBlank_eq_nil {cs : List Char} :
    cs.dropWhile isBlank = [] ↔ allBlank cs = true := by
  induction cs with
  | nil => simp [allBlank]
  | cons c cs ih =>
    cases h : isBlank c <;> simp_all [allBlank]

theorem trim_eq_nil_iff {cs : List Char} : trim cs = [] ↔ allBlank cs = true := by
  rw [trim, List.reverse_eq_nil_iff, dropWhile_isBlank_eq_nil]
  cases hd : cs.dropWhile isBlank with
  | nil => simpa [allBlank] using dropWhile_isBlank_eq_nil.1 hd
  | cons c rest =>
    -- the first character that is left is not blank, so neither is the text
    have hc : isBlank c = false := by
      simpa [hd] using List.head?_dropWhile_not isBlank cs
    have hn : allBlank cs ≠ true := fun h => by simp [dropWhile_isBlank_eq_nil.2 h] at hd
    rw [Bool.eq_false_iff.2 hn]
    simp [allBlank, hc]

theorem allBlank_iff {cs : List Char} : allBlank cs = true ↔ ∀ c ∈ cs, isBlank c = true :=
  List.all_eq_true

theorem trim_blank_append {w : List Char} (h : allBlank w = true) (cs : List Char) :
    trim (w ++ cs) = trim cs := by
  rw [trim, trim, List.dropWhile_append_of_pos (allBlank_iff.1 h)]

theorem trim_append_blank {w : List Char} (h : allBlank w = true) (cs : List Char) :
    trim (cs ++ w) = trim cs := by
  have hrev : ∀ c ∈ w.reverse, isBlank c = true := by
    intro c hc
    exact allBlank_iff.1 h c (List.mem_reverse.1 hc)
  rw [trim, trim, List.dropWhile_append]
  split
  case isTrue hnil =>
    rw [List.isEmpty_iff.1 hnil, dropWhile_isBlank_eq_nil.2 h]
  case isFalse => rw [List.reverse_append, List.dropWhile_append_of_pos hrev]

theorem exists_eq_trim (cs : List Char) :
    ∃ before after, allBlank before = true ∧ allBlank after = true ∧
      cs = before ++ (trim cs ++ after) := by
  have blank_takeWhile (ds : List Char) : allBlank (ds.takeWhile isBlank) = true :=
    List.all_takeWhile
  refine ⟨cs.takeWhile isBlank, ((cs.dropWhile isBlank).reverse.takeWhile isBlank).reverse,
    blank_takeWhile cs, ?_, ?_⟩
  · rw [allBlank, List.all_reverse]
    exact blank_takeWhile _
  · rw [trim, ← List.reverse_append, List.takeWhile_append_dropWhile, List.reverse_reverse,
      List.takeWhile_append_dropWhile]

theorem length_trim_le (cs : List Char) : (trim cs).length ≤ cs.length := by
  obtain ⟨before, after, -, -, hcs⟩ := exists_eq_trim cs
  have hlength := congrArg List.length hcs
  rw [List.length_append, List.length_append] at hlength
  omega

theorem trim_trim (cs : List Char) : trim (trim cs) = trim cs := by
  obtain ⟨before, after, hb, ha, hcs⟩ := exists_eq_trim cs
  have houter : trim (before ++ (trim cs ++ after)) = trim (trim cs) := by
    rw [trim_blank_append hb, trim_append_blank ha]
  rw [← hcs] at houter
  exact houter.symm

theorem trim_eq_self_iff {cs : List Char} : trim cs = cs ↔
    (∀ c ∈ cs.head?, isBlank c = false) ∧ ∀ c ∈ cs.getLast?, isBlank c = false := by
  have single {c : Char} (hc : isBlank c = true) : allBlank [c] = true := by simp [allBlank, hc]
  constructor
  · intro h
    refine ⟨?_, ?_⟩
    · intro c hc
      obtain ⟨rest, rfl⟩ := List.head?_eq_some_iff.1 hc
      cases hblank : isBlank c with
      | false => rfl
      | true =>
        -- a text that loses a character is shorter
        have hrest : trim (c :: rest) = trim rest := trim_blank_append (single hblank) rest
        have hle := length_trim_le rest
        rw [← hrest, h, List.length_cons] at hle
        omega
    · intro c hc
      obtain ⟨front, rfl⟩ := List.getLast?_eq_some_iff.1 hc
      cases hblank : isBlank c with
      | false => rfl
      | true =>
        have hfront : trim (front ++ [c]) = trim front := trim_append_blank (single hblank) front
        have hle := length_trim_le front
        rw [← hfront, h, List.length_append, List.length_singleton] at hle
        omega
  · rintro ⟨hhead, hlast⟩
    obtain ⟨before, after, hb, ha, hcs⟩ := exists_eq_trim cs
    have hbefore : before = [] := by
      cases before with
      | nil => rfl
      | cons b bs =>
        have hfirst : cs.head? = some b := by rw [hcs]; rfl
        have hblank : isBlank b = true := allBlank_iff.1 hb b List.mem_cons_self
        exact absurd (hblank.symm.trans (hhead b hfirst)) Bool.noConfusion
    have hafter : after = [] := by
      rcases List.eq_nil_or_concat after with h | ⟨front, c, rfl⟩
      · exact h
      · have hend : cs.getLast? = some c := by
          rw [hcs, List.concat_eq_append, ← List.append_assoc, ← List.append_assoc]
          exact List.getLast?_concat ..
        have hblank : isBlank c = true := allBlank_iff.1 ha c (by simp)
        exact absurd (hblank.symm.trans (hlast c hend)) Bool.noConfusion
    rw [hbefore, hafter, List.nil_append, List.append_nil] at hcs
    exact hcs.symm

end AccessGuard
