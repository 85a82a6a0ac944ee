import AccessGuard.Json.Basic
import AccessGuard.Json.Token

/-!
# The tokens of written JSON

What the compact writer puts down for a single value is cut into one token again, whatever may
follow it: a numeral where nothing that lengthens it follows, a quoted text in any case. Doubles
are left out, as their numerals are not read exactly.

* `Numeral.read?_text`: the numeral of an integer, before a text that cannot lengthen it.
* `Numeral.toNumber?_ofInt`: the integer of its numeral, within 64 bits.
* `Quoted.pieces?_quote`, `Quoted.content?_map_pieceOf`: a quoted text, whatever it holds.
* `Token.all_integer`, `Token.all_quote`: both as tokens.
-/

namespace AccessGuard

/-! ## Numerals of integers -/

namespace Numeral

/-- The numeral of an integer. -/
def ofInt (n : Int) : Numeral := ⟨decide (n < 0), Nat.toDigits 10 n.natAbs, [], none⟩

/-- A text that cannot lengthen a numeral before it. -/
def Stops (rest : List Char) : Prop :=
  ∀ c ∈ rest.head?, c.isDigit = false ∧ c ≠ '.' ∧ c ≠ 'e' ∧ c ≠ 'E'

theorem stops_nil : Stops [] := by simp [Stops]

theorem stops_cons {c : Char} {rest : List Char}
    (h : c.isDigit = false ∧ c ≠ '.' ∧ c ≠ 'e' ∧ c ≠ 'E') : Stops (c :: rest) := by
  simpa [Stops] using h

variable {rest : List Char}

theorem isDigit_toDigits {c : Char} {n : Nat} (h : c ∈ Nat.toDigits 10 n) : c.isDigit = true :=
  Nat.isDigit_of_mem_toDigits (by decide) (by decide) h

theorem exists_first_digit (n : Nat) :
    ∃ d ds, Nat.toDigits 10 n = d :: ds ∧ d.isDigit = true := by
  obtain ⟨d, ds, hds⟩ := List.exists_cons_of_ne_nil (Nat.toDigits_ne_nil (n := n) (b := 10))
  have hmem : d ∈ Nat.toDigits 10 n := by
    rw [hds]
    exact List.mem_cons_self
  exact ⟨d, ds, hds, isDigit_toDigits hmem⟩

/-- Only zero begins with a zero. -/
theorem toDigits_of_head_zero {n : Nat} (h : (Nat.toDigits 10 n).head? = some '0') :
    Nat.toDigits 10 n = ['0'] := by
  induction n using Nat.strongRecOn with
  | ind n ih =>
    rw [Nat.toDigits_eq_if (by decide)] at h ⊢
    split at h
    case isTrue hn =>
      rw [if_pos hn]
      simpa using h
    case isFalse hn =>
      -- the digits before the last one would have to be a zero, but they are those of a tenth
      have hhead : (Nat.toDigits 10 (n / 10)).head? = some '0' := by
        obtain ⟨d, ds, hds, -⟩ := exists_first_digit (n / 10)
        rw [hds] at h ⊢
        exact h
      have hzero : n / 10 = 0 := by
        have hvalue : Nat.ofDigitChars 10 (Nat.toDigits 10 (n / 10)) 0 = n / 10 :=
          Nat.ofDigitChars_ten_toDigits
        rw [ih (n / 10) (by omega) hhead] at hvalue
        exact hvalue.symm
      omega

theorem readMinus_text (n : Int) (rest : List Char) :
    readMinus ((Number.integer n).text ++ rest) =
      (decide (n < 0), Nat.toDigits 10 n.natAbs ++ rest) := by
  rw [Number.text]
  split
  case isTrue hn => simp [readMinus, hn]
  case isFalse hn =>
    obtain ⟨d, ds, hds, hd⟩ := exists_first_digit n.natAbs
    have hne : d ≠ '-' := by
      rintro rfl
      cases hd
    unfold readMinus
    split
    case h_1 cs heq =>
      rw [hds, List.cons_append] at heq
      exact absurd (List.cons.inj heq).1 hne
    case h_2 => simp [hn]

theorem takeWhile_isDigit_append (n : Nat) (h : Stops rest) :
    (Nat.toDigits 10 n ++ rest).takeWhile Char.isDigit = Nat.toDigits 10 n := by
  rw [List.takeWhile_append_of_pos fun _ => isDigit_toDigits]
  cases rest with
  | nil => simp
  | cons c rest => simp [(h c rfl).1]

theorem dropWhile_isDigit_append (n : Nat) (h : Stops rest) :
    (Nat.toDigits 10 n ++ rest).dropWhile Char.isDigit = rest := by
  rw [List.dropWhile_append_of_pos fun _ => isDigit_toDigits]
  cases rest with
  | nil => simp
  | cons c rest => simp [(h c rfl).1]

theorem readFraction?_of_stops (h : Stops rest) : readFraction? rest = some ([], rest) := by
  unfold readFraction?
  split
  · exact absurd rfl (h '.' rfl).2.1
  · rfl

theorem readExponent?_of_stops (h : Stops rest) : readExponent? rest = some (none, rest) := by
  unfold readExponent?
  split
  · rfl
  · rename_i c cs
    have hc : ¬ (c = 'e' ∨ c = 'E') := by
      rw [not_or]
      exact (h c rfl).2.2
    rw [if_neg hc]

/-- **The numeral of an integer is read back**, before a text that cannot lengthen it. -/
theorem read?_text (n : Int) (h : Stops rest) :
    read? ((Number.integer n).text ++ rest) = some (ofInt n, rest) := by
  have hne : Nat.toDigits 10 n.natAbs ≠ [] := Nat.toDigits_ne_nil
  have hzero : ((Nat.toDigits 10 n.natAbs).head? == some '0' &&
      Nat.toDigits 10 n.natAbs != ['0']) = false := by
    rw [Bool.and_eq_false_imp]
    intro hhead
    simpa using toDigits_of_head_zero (eq_of_beq hhead)
  simp only [read?, readMinus_text, takeWhile_isDigit_append _ h, dropWhile_isDigit_append _ h,
    hzero, List.isEmpty_eq_false_iff.2 hne, Bool.or_self, Bool.false_eq_true, if_false,
    readFraction?_of_stops h, readExponent?_of_stops h, Option.bind_eq_bind, Option.bind_some,
    ofInt]

/-- Integers of 64 bits, with or without a sign. -/
theorem toNumber?_ofInt {n : Int} (hlow : -0x8000000000000000 ≤ n)
    (hhigh : n < 0x10000000000000000) : (ofInt n).toNumber? = some (.integer n) := by
  have hvalue : digitsValue (Nat.toDigits 10 n.natAbs) = n.natAbs := Nat.ofDigitChars_ten_toDigits
  simp only [toNumber?, ofInt, hvalue]
  by_cases hn : n < 0
  · have hbound : 0 < n.natAbs ∧ n.natAbs ≤ 0x8000000000000000 := by omega
    have hneg : -(n.natAbs : Int) = n := by omega
    simp only [hn, hbound, hneg, List.isEmpty_nil, Option.isNone_none, decide_true, Bool.and_self,
      Bool.not_true, Bool.and_false, Bool.false_and, Bool.false_eq_true, and_self, if_false,
      if_true]
  · have hbound : n.natAbs < 0x10000000000000000 := by omega
    have hpos : (n.natAbs : Int) = n := by omega
    simp only [hn, hbound, hpos, List.isEmpty_nil, Option.isNone_none, decide_true, decide_false,
      Bool.and_self, Bool.not_false, if_true]

end Numeral

/-! ## Quoted texts -/

namespace Quoted

/-- A control without a short escape is written as a code unit. -/
def pieceOf (c : Char) : Piece :=
  if Json.shortEscapes.lookup c = none ∧ c.toNat < 0x20 then .unit c.toNat else .char c

theorem unit?_control {n : Nat} (h : n < 0x20) :
    unit? '0' '0' (Nat.digitChar (n / 16)) (Nat.digitChar (n % 16)) = some n := by
  have hhigh : hexDigit? (Nat.digitChar (n / 16)) = some ⟨n / 16, by omega⟩ :=
    hexDigit?_digitChar ⟨n / 16, by omega⟩
  have hlow : hexDigit? (Nat.digitChar (n % 16)) = some ⟨n % 16, by omega⟩ :=
    hexDigit?_digitChar ⟨n % 16, by omega⟩
  have hzero : hexDigit? '0' = some 0 := by decide
  simp only [unit?, hzero, hhigh, hlow, Option.some.injEq]
  simp
  omega

/-- The short escapes are undone, and none of them is taken for a code unit. -/
theorem unescape?_of_mem {c e : Char} (h : (c, e) ∈ Json.shortEscapes) :
    unescape? e = some c ∧ e ≠ 'u' := by
  have hall : ∀ p ∈ Json.shortEscapes, unescape? p.2 = some p.1 ∧ p.2 ≠ 'u' := by decide
  exact hall (c, e) h

theorem pieces?_short {c e : Char} (h : (c, e) ∈ Json.shortEscapes) (rest : List Char) :
    pieces? ('\\' :: e :: rest) = (pieces? rest).map fun p => (.char c :: p.1, p.2) := by
  obtain ⟨hescape, hne⟩ := unescape?_of_mem h
  rw [pieces?, hescape]
  · cases pieces? rest <;> rfl
  · intro _ _ _ _ _ hu _
    exact hne hu

/-- A character that need not be escaped stands for itself. -/
theorem pieces?_plain {c : Char} (hquote : c ≠ '"') (hslash : c ≠ '\\')
    (hcontrol : ¬ c.toNat < 0x20) (rest : List Char) :
    pieces? (c :: rest) = (pieces? rest).map fun p => (.char c :: p.1, p.2) := by
  rw [pieces?, if_neg hcontrol]
  · exact hquote
  · intro _ _ _ _ _ hc _
    exact hslash hc
  · intro _ _ hc _
    exact hslash hc

theorem pieces?_escape (c : Char) (rest : List Char) :
    pieces? (Json.escape c ++ rest) = (pieces? rest).map fun p => (pieceOf c :: p.1, p.2) := by
  cases hlookup : Json.shortEscapes.lookup c with
  | some e =>
    have hmem := mem_of_lookup_eq_some hlookup
    have hescape : Json.escape c = ['\\', e] := by rw [Json.escape, hlookup]
    have hpiece : pieceOf c = .char c := by simp [pieceOf, hlookup]
    rw [hescape, hpiece]
    exact pieces?_short hmem rest
  | none =>
    by_cases hcontrol : c.toNat < 0x20
    · have hescape : Json.escape c =
          ['\\', 'u', '0', '0', Nat.digitChar (c.toNat / 16), Nat.digitChar (c.toNat % 16)] := by
        simp [Json.escape, hlookup, hcontrol]
      have hpiece : pieceOf c = .unit c.toNat := if_pos ⟨hlookup, hcontrol⟩
      simp only [hescape, hpiece, List.cons_append, List.nil_append, pieces?,
        unit?_control hcontrol]
      cases pieces? rest <;> rfl
    · have hescape : Json.escape c = [c] := by simp [Json.escape, hlookup, hcontrol]
      have hpiece : pieceOf c = .char c := if_neg fun h => hcontrol h.2
      have hquote : c ≠ '"' := by
        rintro rfl
        cases hlookup
      have hslash : c ≠ '\\' := by
        rintro rfl
        cases hlookup
      rw [hescape, hpiece]
      exact pieces?_plain hquote hslash hcontrol rest

theorem pieces?_quote (cs rest : List Char) :
    pieces? (cs.flatMap Json.escape ++ '"' :: rest) = some (cs.map pieceOf, rest) := by
  induction cs with
  | nil => simp [pieces?]
  | cons c cs ih =>
    rw [List.flatMap_cons, List.append_assoc, pieces?_escape, ih, Option.map_some, List.map_cons]

/-- **What is quoted is read back.** A control is no half of a pair. -/
theorem content?_map_pieceOf (cs : List Char) : content? (cs.map pieceOf) = some cs := by
  induction cs with
  | nil => simp [content?]
  | cons c cs ih =>
    rw [List.map_cons, pieceOf]
    split
    case isTrue hcontrol =>
      have hlow : ¬ (0xD800 ≤ c.toNat ∧ c.toNat < 0xDC00) := by omega
      have hhigh : ¬ (0xDC00 ≤ c.toNat ∧ c.toNat < 0xE000) := by omega
      rw [content?.eq_def]
      simp only [if_neg hlow, if_neg hhigh, ih, Option.map_some, Char.ofNat_toNat]
    case isFalse => rw [content?, ih, Option.map_some]

end Quoted

/-! ## Tokens of a written value -/

namespace Token

theorem all_of_read? {c : Char} {cs after : List Char} {t : Token} (hc : isGap c = false)
    (h : read? (c :: cs) = some (t, after)) : all (c :: cs) = t :: all after := by
  rw [all, if_neg (by simp [hc])]
  split
  case h_1 hnone =>
    rw [h] at hnone
    cases hnone
  case h_2 hsome =>
    rw [h] at hsome
    cases hsome
    rfl

variable {rest : List Char}

theorem all_openArray : all ('[' :: rest) = openArray :: all rest := all_of_read? (by decide) rfl

theorem all_closeArray : all (']' :: rest) = closeArray :: all rest := all_of_read? (by decide) rfl

theorem all_openObject : all ('\x7b' :: rest) = openObject :: all rest :=
  all_of_read? (by decide) rfl

theorem all_closeObject : all ('\x7d' :: rest) = closeObject :: all rest :=
  all_of_read? (by decide) rfl

theorem all_comma : all (',' :: rest) = comma :: all rest := all_of_read? (by decide) rfl

theorem all_colon : all (':' :: rest) = colon :: all rest := all_of_read? (by decide) rfl

theorem all_null : all ("null".toList ++ rest) = null :: all rest := all_of_read? (by decide) rfl

theorem all_true : all ("true".toList ++ rest) = bool true :: all rest :=
  all_of_read? (by decide) rfl

theorem all_false : all ("false".toList ++ rest) = bool false :: all rest :=
  all_of_read? (by decide) rfl

theorem all_quote (s : String) :
    all (Json.quote s ++ rest) = quoted (some s.toList) :: all rest := by
  rw [Json.quote, List.append_assoc, List.cons_append]
  apply all_of_read? (by decide)
  rw [List.singleton_append, read?]
  simp [Quoted.pieces?_quote, Quoted.content?_map_pieceOf]

/-- A text that begins as a numeral does is read as one. -/
theorem read?_of_numeral {c : Char} {cs : List Char} (hc : c.isDigit = true ∨ c = '-') :
    read? (c :: cs) = (Numeral.read? (c :: cs)).map fun (n, after) => (numeral n, after) := by
  unfold read?
  split
  case h_11 => rfl
  all_goals
    rename_i heq
    obtain ⟨rfl, -⟩ := List.cons.inj heq
    exact absurd hc (by decide)

theorem all_integer (n : Int) (h : Numeral.Stops rest) :
    all ((Number.integer n).text ++ rest) = numeral (.ofInt n) :: all rest := by
  have hread := Numeral.read?_text n h
  obtain ⟨c, cs, htext, hc⟩ : ∃ c cs, (Number.integer n).text = c :: cs ∧
      (c.isDigit = true ∨ c = '-') := by
    rw [Number.text]
    split
    · exact ⟨_, _, rfl, .inr rfl⟩
    · obtain ⟨d, ds, hds, hd⟩ := Numeral.exists_first_digit n.natAbs
      exact ⟨d, ds, hds, .inl hd⟩
  have hgap : isGap c = false := by
    unfold isGap
    rcases hc with hc | rfl
    · simp only [Bool.or_eq_false_iff, beq_eq_false_iff_ne]
      refine ⟨⟨⟨?_, ?_⟩, ?_⟩, ?_⟩ <;> · rintro rfl; cases hc
    · decide
  rw [htext, List.cons_append] at hread ⊢
  apply all_of_read? hgap
  rw [read?_of_numeral hc, hread]
  rfl

end Token

end AccessGuard
