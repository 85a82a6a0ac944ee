import AccessGuard.Proofs.GrantCoverage
import Mathlib.Data.Fintype.EquivFin
import Mathlib.Logic.Relation

/-!
# Spellings of a grant

A grant is read part by part, and a part value by value. The white space around parts and values
does not count, so what is read hangs on the table of trimmed values alone. White space put in
beside a colon or a comma, or at either end of the text, leaves that table as it is.

* `GrantPart.read?_eq_ofValues?`, `readParts?_eq_mapM`: reading goes by the trimmed values.
* `parse_isOk_iff`: the texts that can be read.
* `isWildcard_iff`: a grant of at most three parts is a wildcard where it implies everything.
* `Respaced.values_eq`: what white space around separators leaves alone.
* `meaning_as_written`: all of it in one statement.
-/

namespace AccessGuard

/-! ## Pieces of a text -/

section Pieces

variable {β : Type} {f : List Char → β} {sep : Char} {w xs ys : List Char}

theorem splitOn_append_of_not_mem (hw : sep ∉ w) (cs : List Char) :
    (w ++ cs).splitOn sep = (cs.splitOn sep).modifyHead (w ++ ·) := by
  induction w with
  | nil =>
    obtain ⟨piece, pieces, hcs⟩ := List.exists_cons_of_ne_nil (List.splitOn_ne_nil sep cs)
    rw [List.nil_append, hcs, List.modifyHead_cons, List.nil_append]
  | cons c w ih =>
    rw [List.mem_cons, not_or] at hw
    have hne : (c == sep) = false := beq_eq_false_iff_ne.2 (Ne.symm hw.1)
    rw [List.cons_append, List.splitOn_cons_eq_if_modifyHead, hne, ih hw.2,
      if_neg Bool.false_ne_true, List.modifyHead_modifyHead]
    rfl

/-- What stands before two texts does not tell their pieces apart, if it does not do so for any
two pieces at the same place. -/
theorem map_splitOn_append_congr
    (h : List.Forall₂ (fun l m => ∀ before, f (before ++ l) = f (before ++ m))
      (xs.splitOn sep) (ys.splitOn sep)) (cs : List Char) :
    ((cs ++ xs).splitOn sep).map f = ((cs ++ ys).splitOn sep).map f := by
  suffices List.Forall₂ (fun l m => ∀ before, f (before ++ l) = f (before ++ m))
      ((cs ++ xs).splitOn sep) ((cs ++ ys).splitOn sep) by
    generalize (cs ++ xs).splitOn sep = ls at this ⊢
    generalize (cs ++ ys).splitOn sep = ms at this ⊢
    induction this with
    | nil => rfl
    | cons hlm _ ih =>
      have hhead := hlm []
      rw [List.nil_append, List.nil_append] at hhead
      rw [List.map_cons, List.map_cons, hhead, ih]
  induction cs with
  | nil => exact h
  | cons c cs ih =>
    rw [List.cons_append, List.cons_append, List.splitOn_cons_eq_if_modifyHead,
      List.splitOn_cons_eq_if_modifyHead]
    generalize (cs ++ xs).splitOn sep = ls at ih ⊢
    generalize (cs ++ ys).splitOn sep = ms at ih ⊢
    split
    · exact .cons (fun before => rfl) ih
    · cases ih with
      | nil => exact .nil
      | cons hlm hrest =>
        -- the first piece begins with the character, so it can be counted to what stands before
        refine .cons (fun before => ?_) hrest
        have := hlm (before ++ [c])
        rwa [List.append_assoc, List.append_assoc] at this

/-- Blank text at either end makes no difference. -/
structure EndsIgnored (f : List Char → β) : Prop where
  front : ∀ {w : List Char}, allBlank w = true → ∀ cs, f (w ++ cs) = f cs
  back : ∀ {w : List Char}, allBlank w = true → ∀ cs, f (cs ++ w) = f cs

theorem endsIgnored_trim : EndsIgnored trim := ⟨trim_blank_append, trim_append_blank⟩

theorem not_mem_of_allBlank (hsep : isBlank sep = false) (hw : allBlank w = true) : sep ∉ w := by
  intro hmem
  rw [allBlank_iff.1 hw sep hmem] at hsep
  cases hsep

/-- Text between separators that does not see its ends makes a list of pieces that does not. -/
theorem EndsIgnored.pieces (hf : EndsIgnored f) (hsep : isBlank sep = false) :
    EndsIgnored fun cs => (cs.splitOn sep).map f where
  front {w} hw cs := by
    obtain ⟨piece, pieces, hcs⟩ := List.exists_cons_of_ne_nil (List.splitOn_ne_nil sep cs)
    have hnot : sep ∉ w := not_mem_of_allBlank hsep hw
    rw [splitOn_append_of_not_mem hnot, hcs, List.modifyHead_cons, List.map_cons, List.map_cons,
      hf.front hw]
  back {w} hw cs := by
    have hnot : sep ∉ w := not_mem_of_allBlank hsep hw
    have hends : List.Forall₂ (fun l m => ∀ before, f (before ++ l) = f (before ++ m))
        (w.splitOn sep) ([].splitOn sep) := by
      rw [List.splitOn_eq_singleton hnot, List.splitOn_nil]
      refine .cons (fun before => ?_) .nil
      rw [List.append_nil, hf.back hw]
    have := map_splitOn_append_congr hends cs
    rwa [List.append_nil] at this

/-- Blank text beside a separator belongs to the end of a piece. -/
theorem EndsIgnored.beside_separator (hf : EndsIgnored f) (hsep : isBlank sep = false)
    (hw : allBlank w = true) (cs ds : List Char) :
    ((cs ++ (w ++ sep :: ds)).splitOn sep).map f = ((cs ++ sep :: ds).splitOn sep).map f ∧
      ((cs ++ sep :: (w ++ ds)).splitOn sep).map f = ((cs ++ sep :: ds).splitOn sep).map f := by
  have hpieces := hf.pieces hsep
  have hback : ((cs ++ w).splitOn sep).map f = (cs.splitOn sep).map f := hpieces.back hw cs
  have hfront : ((w ++ ds).splitOn sep).map f = (ds.splitOn sep).map f := hpieces.front hw ds
  constructor
  · rw [← List.append_assoc, List.splitOn_append_cons_self, List.splitOn_append_cons_self,
      List.map_append, List.map_append, hback]
  · rw [List.splitOn_append_cons_self, List.splitOn_append_cons_self, List.map_append,
      List.map_append, hfront]

/-- A change inside a piece, in text without the separator, is seen in that piece only. -/
theorem map_splitOn_change_inside {x y : List Char} (hx : sep ∉ x) (hy : sep ∉ y)
    (h : ∀ before after, f (before ++ (x ++ after)) = f (before ++ (y ++ after)))
    (cs ds : List Char) :
    ((cs ++ (x ++ ds)).splitOn sep).map f = ((cs ++ (y ++ ds)).splitOn sep).map f := by
  apply map_splitOn_append_congr
  obtain ⟨piece, pieces, hds⟩ := List.exists_cons_of_ne_nil (List.splitOn_ne_nil sep ds)
  rw [splitOn_append_of_not_mem hx, splitOn_append_of_not_mem hy, hds, List.modifyHead_cons,
    List.modifyHead_cons]
  exact .cons (fun before => h before piece) (List.forall₂_same.2 fun _ _ _ => rfl)

end Pieces

/-! ## Trimmed values -/

/-- The values of a part between its commas, without the white space around them. -/
def writtenValues (part : List Char) : List (List Char) := (part.splitOn ',').map trim

/-- The values of all parts. -/
def valueTable (text : List Char) : List (List (List Char)) :=
  (text.splitOn ':').map writtenValues

theorem endsIgnored_writtenValues : EndsIgnored writtenValues := endsIgnored_trim.pieces (by decide)

theorem endsIgnored_valueTable : EndsIgnored valueTable :=
  endsIgnored_writtenValues.pieces (by decide)

theorem writtenValues_trim (part : List Char) : writtenValues (trim part) = writtenValues part := by
  obtain ⟨before, after, hb, ha, hpart⟩ := exists_eq_trim part
  conv_rhs => rw [hpart]
  rw [endsIgnored_writtenValues.front hb, endsIgnored_writtenValues.back ha]

/-- A part is the star alone where its only value is. -/
theorem trim_eq_star_iff {part : List Char} : trim part = ['*'] ↔ writtenValues part = [['*']] := by
  constructor
  · intro h
    rw [← writtenValues_trim, h]
    decide
  · intro h
    obtain ⟨value, hvalue, htrim⟩ : ∃ value, part.splitOn ',' = [value] ∧ trim value = ['*'] := by
      rw [writtenValues, List.map_eq_singleton_iff] at h
      exact h
    -- one value only, so there is no comma and the value is the part
    have hpart : part = value := by
      have hjoined : [','].intercalate (part.splitOn ',') = part := List.intercalate_splitOn ','
      rw [← hjoined, hvalue, List.intercalate_singleton]
    rw [hpart, htrim]

namespace GrantPart

/-- A part with these values; none if a value is empty. -/
def ofValues? (values : List (List Char)) : Option GrantPart :=
  if values = [['*']] then some any
  else if values.any List.isEmpty then none
  else some (oneOf (values.map .ofList))

/-- **A part is read by its trimmed values.** -/
theorem read?_eq_ofValues? (part : List Char) : read? part = ofValues? (writtenValues part) := by
  unfold read? ofValues?
  simp only [trim_eq_star_iff]
  split
  · rfl
  · have hvalues : ((trim part).splitOn ',').map trim = writtenValues part :=
      writtenValues_trim part
    rw [hvalues]

theorem exists_ofValues?_iff {values : List (List Char)} :
    (∃ p, ofValues? values = some p) ↔ ∀ value ∈ values, value ≠ [] := by
  unfold ofValues?
  split
  case isTrue hstar => simp [hstar]
  case isFalse =>
    split
    case isTrue hany =>
      obtain ⟨value, hvalue, hempty⟩ := List.any_eq_true.1 hany
      simp only [reduceCtorEq, exists_false, false_iff]
      exact fun hall => hall value hvalue (List.isEmpty_iff.1 hempty)
    case isFalse hany =>
      simp only [Option.some.injEq, exists_eq', true_iff]
      intro value hvalue hempty
      exact hany (List.any_eq_true.2 ⟨value, hvalue, List.isEmpty_iff.2 hempty⟩)

end GrantPart

/-- **A grant is read by its trimmed values.** -/
theorem readParts?_eq_mapM (text : List Char) :
    readParts? text = (valueTable text).mapM GrantPart.ofValues? := by
  rw [readParts?, valueTable, List.mapM_map]
  congr 1
  funext part
  exact GrantPart.read?_eq_ofValues? part

theorem exists_mapM_iff {α β : Type} {f : α → Option β} {xs : List α} :
    (∃ ys, xs.mapM f = some ys) ↔ ∀ x ∈ xs, ∃ y, f x = some y := by
  induction xs with
  | nil => simp
  | cons x xs ih =>
    rw [List.forall_mem_cons, ← ih]
    simp only [List.mapM_cons, Option.bind_eq_bind, Option.bind_eq_some_iff, Option.pure_def]
    constructor
    · rintro ⟨_, y, hy, ys, hys, -⟩
      exact ⟨⟨y, hy⟩, ys, hys⟩
    · rintro ⟨⟨y, hy⟩, ys, hys⟩
      exact ⟨_, y, hy, ys, hys, rfl⟩

/-! ## White space around separators -/

/-- White space put in at one place, beside a colon or a comma or at either end. -/
inductive SpaceAdded : List Char → List Char → Prop
  | atStart {w} (cs : List Char) (hw : allBlank w = true) : SpaceAdded cs (w ++ cs)
  | atEnd {w} (cs : List Char) (hw : allBlank w = true) : SpaceAdded cs (cs ++ w)
  | before {w sep} (cs ds : List Char) (hw : allBlank w = true) (hsep : sep = ':' ∨ sep = ',') :
      SpaceAdded (cs ++ sep :: ds) (cs ++ (w ++ sep :: ds))
  | after {w sep} (cs ds : List Char) (hw : allBlank w = true) (hsep : sep = ':' ∨ sep = ',') :
      SpaceAdded (cs ++ sep :: ds) (cs ++ sep :: (w ++ ds))

/-- Two texts that differ only in white space around colons and commas and at the ends, which may
be put in and taken away any number of times. -/
def Respaced : List Char → List Char → Prop := Relation.EqvGen SpaceAdded

theorem SpaceAdded.values_eq {cs ds : List Char} (h : SpaceAdded cs ds) :
    valueTable cs = valueTable ds := by
  cases h with
  | atStart _ hw => exact (endsIgnored_valueTable.front hw _).symm
  | atEnd _ hw => exact (endsIgnored_valueTable.back hw _).symm
  | @before w sep front rest hw hsep =>
    rcases hsep with rfl | rfl
    · exact (endsIgnored_writtenValues.beside_separator (by decide) hw front rest).1.symm
    · -- a comma stands inside a part, where the white space is at the end of a value
      have hinside (before after : List Char) : writtenValues (before ++ ([','] ++ after)) =
          writtenValues (before ++ ((w ++ [',']) ++ after)) := by
        rw [List.append_assoc w]
        exact (endsIgnored_trim.beside_separator (by decide) hw before after).1.symm
      have hcolon : ':' ∉ w ++ [','] := by
        simpa using not_mem_of_allBlank (by decide) hw
      have := map_splitOn_change_inside (by decide) hcolon hinside front rest
      rwa [List.append_assoc w] at this
  | @after w sep front rest hw hsep =>
    rcases hsep with rfl | rfl
    · exact (endsIgnored_writtenValues.beside_separator (by decide) hw front rest).2.symm
    · have hinside (before after : List Char) : writtenValues (before ++ ([','] ++ after)) =
          writtenValues (before ++ ((',' :: w) ++ after)) :=
        (endsIgnored_trim.beside_separator (by decide) hw before after).2.symm
      have hcolon : ':' ∉ ',' :: w := by
        simpa using not_mem_of_allBlank (by decide) hw
      exact map_splitOn_change_inside (by decide) hcolon hinside front rest

/-- **White space around separators leaves the values alone.** -/
theorem Respaced.values_eq {cs ds : List Char} (h : Respaced cs ds) :
    valueTable cs = valueTable ds := by
  induction h with
  | rel _ _ hadded => exact hadded.values_eq
  | refl => rfl
  | symm _ _ _ ih => exact ih.symm
  | trans _ _ _ _ _ ih₁ ih₂ => exact ih₁.trans ih₂

theorem Respaced.readParts?_eq {cs ds : List Char} (h : Respaced cs ds) :
    readParts? cs = readParts? ds := by
  rw [readParts?_eq_mapM, readParts?_eq_mapM, h.values_eq]

/-! ## Grants -/

namespace Grant

variable {g : Grant} {text : String}

theorem exists_parse_iff : (∃ g, parse text = .ok g) ↔ ∃ ps, readParts? text.toList = some ps := by
  constructor
  · rintro ⟨g, hg⟩
    obtain rfl := parse_eq_ok.1 hg
    exact ⟨g.parts, g.parts_eq⟩
  · rintro ⟨ps, hps⟩
    exact ⟨⟨text, ps, hps⟩, parse_eq_ok.2 rfl⟩

/-- **The texts that can be read**: no value of any part is blank. -/
theorem parse_isOk_iff : (∃ g, parse text = .ok g) ↔
    ∀ part ∈ text.toList.splitOn ':', ∀ value ∈ part.splitOn ',', allBlank value = false := by
  have hvalue (value : List Char) : trim value ≠ [] ↔ allBlank value = false := by
    rw [ne_eq, trim_eq_nil_iff, Bool.not_eq_true]
  rw [exists_parse_iff, readParts?_eq_mapM, exists_mapM_iff]
  simp only [valueTable, writtenValues, List.forall_mem_map, GrantPart.exists_ofValues?_iff, hvalue]

theorem implies_of_isWildcard (h : g.isWildcard = true) (domain action : String)
    (value : Option String) : g.implies domain action value = true := by
  have hall : ∀ p ∈ g.parts, p = .any := by simpa [isWildcard] using h
  unfold implies
  generalize g.parts = ps at hall
  generalize [some domain, some action, value] = cs
  induction ps generalizing cs with
  | nil => rfl
  | cons p ps ih =>
    obtain ⟨rfl, hps⟩ := List.forall_mem_cons.1 hall
    cases cs with
    | nil => rfl
    | cons c cs => exact ih hps cs

theorem isWildcard_eq_true (h : parse text = .ok g) :
    g.isWildcard = true ↔ ∀ part ∈ writtenParts text, part = ['*'] := by
  obtain rfl := parse_eq_ok.1 h
  have hparts := g.parts_written
  unfold isWildcard writtenParts
  generalize g.parts = ps at hparts
  generalize g.text.toList.splitOn ':' = ws at hparts
  induction hparts with
  | nil => simp
  | cons hread _ ih =>
    simp only [List.all_cons, Bool.and_eq_true, decide_eq_true_eq, GrantPart.eq_any_iff hread, ih,
      List.map_cons, List.forall_mem_cons]

/-- **At most three parts that imply everything are all stars.** A text that is none of the values
of any part is accepted by stars alone. -/
theorem isWildcard_iff (h : parse text = .ok g) (hlen : (writtenParts text).length ≤ 3) :
    g.isWildcard = true ↔ ∀ domain action value, g.implies domain action value = true := by
  constructor
  · intro hwild domain action value
    exact implies_of_isWildcard hwild domain action value
  · intro hall
    rw [isWildcard_eq_true h]
    obtain ⟨cs, hcs⟩ := Infinite.exists_notMem_finset
      ((writtenParts text).flatMap fun part => (part.splitOn ',').map trim).toFinset
    rw [List.mem_toFinset, List.mem_flatMap] at hcs
    have haccept : AcceptInTurn (writtenParts text)
        [some (.ofList cs), some (.ofList cs), some (.ofList cs)] :=
      ((implies_iff h).1 (hall _ _ _)).1
    intro part hpart
    obtain ⟨i, hi, rfl⟩ := List.mem_iff_getElem.1 hpart
    -- every part has a component, which is this text
    have hzip : ((writtenParts text)[i], some (String.ofList cs)) ∈ (writtenParts text).zip
        [some (.ofList cs), some (.ofList cs), some (.ofList cs)] := by
      rw [show [some (String.ofList cs), some (.ofList cs), some (.ofList cs)] =
        List.replicate 3 (some (String.ofList cs)) from rfl]
      refine List.mem_iff_getElem.2 ⟨i, ?_, ?_⟩
      · rw [List.length_zip, List.length_replicate]
        omega
      · rw [List.getElem_zip, List.getElem_replicate]
    rcases haccept _ hzip with hstar | ⟨value, hvalue, hmem⟩
    · exact hstar
    · obtain rfl := Option.some.inj hvalue
      rw [String.toList_ofList] at hmem
      exact absurd ⟨_, hpart, hmem⟩ hcs

/-- **Grants mean what is written.** A text is a grant where no value is blank. A grant of at most
three parts implies a request where each part is the star or lists the component at its place, and
is a wildcard where it implies every request. White space around colons and commas and at the ends
of the text changes nothing, however many parts there are. -/
theorem meaning_as_written (text : String) :
    ((∃ g, parse text = .ok g) ↔
      ∀ part ∈ text.toList.splitOn ':', ∀ value ∈ part.splitOn ',', allBlank value = false) ∧
    (∀ g, parse text = .ok g → (writtenParts text).length ≤ 3 →
      (∀ domain action value, g.implies domain action value = true ↔
        AcceptInTurn (writtenParts text) [some domain, some action, value]) ∧
      (g.isWildcard = true ↔ ∀ domain action value, g.implies domain action value = true)) ∧
    ∀ other : String, Respaced text.toList other.toList →
      ((∃ g, parse text = .ok g) ↔ ∃ h, parse other = .ok h) ∧
      ∀ g h, parse text = .ok g → parse other = .ok h →
        (∀ domain action value, g.implies domain action value = h.implies domain action value) ∧
        (∀ domain action, g.coversAction domain action = h.coversAction domain action) ∧
        g.isWildcard = h.isWildcard := by
  refine ⟨parse_isOk_iff, ?_, ?_⟩
  · intro g hg hlen
    refine ⟨fun domain action value => ?_, isWildcard_iff hg hlen⟩
    have hfourth : (writtenParts text)[3]? = none := List.getElem?_eq_none_iff.2 hlen
    rw [implies_iff hg, hfourth]
    simp
  · intro other hspaced
    have hread := hspaced.readParts?_eq
    refine ⟨?_, ?_⟩
    · rw [exists_parse_iff, exists_parse_iff, hread]
    · intro g h hg hh
      obtain rfl := parse_eq_ok.1 hg
      obtain rfl := parse_eq_ok.1 hh
      -- both texts are read as the same parts, and nothing else of a grant is looked at
      have hparts : g.parts = h.parts := by
        rw [g.parts_eq, h.parts_eq] at hread
        exact Option.some.inj hread
      unfold implies coversAction isWildcard
      rw [hparts]
      exact ⟨fun _ _ _ => rfl, fun _ _ => rfl, rfl⟩

namespace Sample

/-- Two domains, and any action. -/
def listGrant : Grant := ⟨"a, b:*", [.oneOf ["a", "b"], .any], by decide⟩

end Sample

/-- White space goes from one side of the comma to the other, and comes in after the colon. -/
theorem meaning_as_written_sample :
    Respaced "a, b:*".toList "a ,b: *".toList ∧
    (∃ h, parse "a ,b: *" = .ok h) ∧
    ∀ h, parse "a ,b: *" = .ok h → ∀ domain action value,
      Sample.listGrant.implies domain action value = h.implies domain action value := by
  have hspaced : Respaced "a, b:*".toList "a ,b: *".toList := by
    have htaken : SpaceAdded "a,b:*".toList "a, b:*".toList :=
      .after (w := [' ']) ['a'] ['b', ':', '*'] (by decide) (.inr rfl)
    have hbefore : SpaceAdded "a,b:*".toList "a ,b:*".toList :=
      .before (w := [' ']) ['a'] ['b', ':', '*'] (by decide) (.inr rfl)
    have hcolon : SpaceAdded "a ,b:*".toList "a ,b: *".toList :=
      .after (w := [' ']) ['a', ' ', ',', 'b'] ['*'] (by decide) (.inl rfl)
    exact (Relation.EqvGen.rel _ _ htaken).symm _ _ |>.trans _ _ _ (.rel _ _ hbefore)
      |>.trans _ _ _ (.rel _ _ hcolon)
  obtain ⟨hparse, hsame⟩ := (meaning_as_written _).2.2 _ hspaced
  have hg : parse "a, b:*" = .ok Sample.listGrant := parse_eq_ok.2 rfl
  exact ⟨hspaced, hparse.1 ⟨_, hg⟩, fun h hh => (hsame _ h hg hh).1⟩

end Grant

end AccessGuard
