import AccessGuard.Json.Decode
import Mathlib.Data.List.Forall2

/-!
# What decoders accept

A decoder stops at the first fault, so it accepts a tree only if it accepts every part of it that it
looks at: all items of a list, all members of an object, and nothing that is left over. What it
makes of them is in the order of the text.

* `decodeText_eq_ok_iff`: a text is one value, and the decoder accepts its tree.
* `decodeList_eq_ok_iff`, `decodeMembers_eq_ok_iff`: item by item, and member by member.
* `foldMembers_cons_eq_ok_iff`, `setOnce_eq_ok_iff`: the members of a record.
* `nextField_eq_ok_iff`, `nextFieldOr_eq_ok_iff`: its fields in an array.
-/

namespace AccessGuard

/-- A sequence of two succeeds exactly when both do, one after the other. -/
theorem bind_eq_ok_iff {ε α β : Type} {x : Except ε α} {f : α → Except ε β} {b : β} :
    (x >>= f) = .ok b ↔ ∃ a, x = .ok a ∧ f a = .ok b := by
  cases x <;> simp [bind, Except.bind]

theorem pure_eq_ok_iff {ε α : Type} {a b : α} : (pure a : Except ε α) = .ok b ↔ a = b := by
  simp [pure, Except.pure]

namespace Tree

variable {α σ : Type} {decode : Tree → Except DecodeError α} {t : Tree} {ts : List Tree}
  {members : List (Option (List Char) × Tree)} {closed : Bool}

theorem decodeText_eq_ok_iff {text : String} {x : α} :
    decodeText decode text = .ok x ↔ ∃ t, ofText text = (t, false) ∧ decode t = .ok x := by
  unfold decodeText
  obtain ⟨t, more⟩ := ofText text
  simp only [bind_eq_ok_iff]
  cases more <;> simp [pure_eq_ok_iff]

theorem decodeString_eq_ok_iff {s : String} :
    t.decodeString = .ok s ↔ t = quoted (some s.toList) := by
  cases t with
  | quoted content =>
    cases content with
    | none => simp [decodeString]
    | some cs =>
      simp only [decodeString, Except.ok.injEq, quoted.injEq, Option.some.injEq]
      constructor
      · rintro rfl
        exact String.toList_ofList.symm
      · rintro rfl
        exact String.ofList_toList
  | _ => simp [decodeString]

/-! ## Lists and free members -/

theorem decodeItems_eq_ok_iff {xs : List α} :
    decodeItems decode ts = .ok xs ↔ List.Forall₂ (fun t x => decode t = .ok x) ts xs := by
  induction ts generalizing xs with
  | nil => simp [decodeItems, eq_comm]
  | cons t ts ih =>
    simp only [decodeItems, bind_eq_ok_iff, pure_eq_ok_iff, ih, List.forall₂_cons_left_iff]
    constructor
    · rintro ⟨x, hx, rest, hrest, rfl⟩
      exact ⟨x, rest, hx, hrest, rfl⟩
    · rintro ⟨x, rest, hx, hrest, rfl⟩
      exact ⟨x, hx, rest, hrest, rfl⟩

/-- **A list is read item by item.** -/
theorem decodeList_eq_ok_iff {xs : List α} : decodeList decode t = .ok xs ↔
    ∃ items, t = array items true ∧ List.Forall₂ (fun t x => decode t = .ok x) items xs := by
  cases t with
  | array items closed =>
    simp only [decodeList, bind_eq_ok_iff, decodeItems_eq_ok_iff]
    cases closed <;> simp [pure_eq_ok_iff]
  | _ => simp [decodeList]

/-- A member as it is read: the name is a text, and the value is accepted. -/
def ReadAs (decode : Tree → Except DecodeError α) (m : Option (List Char) × Tree)
    (entry : String × α) : Prop :=
  m.1 = some entry.1.toList ∧ decode m.2 = .ok entry.2

theorem decodeEntries_eq_ok_iff {entries : List (String × α)} :
    decodeEntries decode members = .ok entries ↔
      List.Forall₂ (ReadAs decode) members entries := by
  induction members generalizing entries with
  | nil => simp [decodeEntries, eq_comm]
  | cons m members ih =>
    obtain ⟨name, t⟩ := m
    rw [List.forall₂_cons_left_iff]
    cases name with
    | none => simp [decodeEntries, ReadAs]
    | some cs =>
      simp only [decodeEntries, bind_eq_ok_iff, pure_eq_ok_iff, ih]
      constructor
      · rintro ⟨x, hx, rest, hrest, rfl⟩
        exact ⟨_, rest, ⟨congrArg some String.toList_ofList.symm, hx⟩, hrest, rfl⟩
      · rintro ⟨⟨name, x⟩, rest, ⟨hname, hx⟩, hrest, rfl⟩
        refine ⟨x, hx, rest, hrest, ?_⟩
        rw [Option.some.inj hname, String.ofList_toList]

/-- **Free members are read one by one.** -/
theorem decodeMembers_eq_ok_iff {entries : List (String × α)} :
    decodeMembers decode t = .ok entries ↔
      ∃ members, t = object members true ∧ List.Forall₂ (ReadAs decode) members entries := by
  cases t with
  | object members closed =>
    simp only [decodeMembers, bind_eq_ok_iff, decodeEntries_eq_ok_iff]
    cases closed <;> simp [pure_eq_ok_iff]
  | _ => simp [decodeMembers]

/-! ## Records -/

variable {step : σ → String → Tree → Except DecodeError σ} {s s' : σ}

theorem foldMembers_nil_eq_ok_iff : foldMembers step s [] = .ok s' ↔ s' = s := by
  simp [foldMembers, eq_comm]

theorem foldMembers_cons_eq_ok_iff {m : Option (List Char) × Tree} :
    foldMembers step s (m :: members) = .ok s' ↔ ∃ name next,
      m.1 = some name.toList ∧ step s name m.2 = .ok next ∧
        foldMembers step next members = .ok s' := by
  obtain ⟨name, t⟩ := m
  cases name with
  | none => simp [foldMembers]
  | some cs =>
    simp only [foldMembers, bind_eq_ok_iff]
    constructor
    · rintro ⟨next, hnext, hrest⟩
      exact ⟨_, next, congrArg some String.toList_ofList.symm, hnext, hrest⟩
    · rintro ⟨name, next, hname, hnext, hrest⟩
      rw [Option.some.inj hname, String.ofList_toList]
      exact ⟨next, hnext, hrest⟩

/-- A field is set once, to what its value is read as. -/
theorem setOnce_eq_ok_iff {name : String} {earlier found : Option α} :
    setOnce name earlier decode t = .ok found ↔
      earlier = none ∧ ∃ x, decode t = .ok x ∧ found = some x := by
  cases earlier with
  | some x => simp [setOnce]
  | none => cases h : decode t <;> simp [setOnce, h, Except.map, eq_comm]

theorem nextField_eq_ok_iff {x : α} {rest : List Tree} :
    nextField decode ts = .ok (x, rest) ↔ ∃ t, ts = t :: rest ∧ decode t = .ok x := by
  cases ts with
  | nil => simp [nextField]
  | cons t ts =>
    simp only [nextField, bind_eq_ok_iff, pure_eq_ok_iff, Prod.mk.injEq, List.cons.injEq]
    constructor
    · rintro ⟨_, hx, rfl, rfl⟩
      exact ⟨t, ⟨rfl, rfl⟩, hx⟩
    · rintro ⟨_, ⟨rfl, rfl⟩, hx⟩
      exact ⟨x, hx, rfl, rfl⟩

theorem nextFieldOr_eq_ok_iff {x default : α} {rest : List Tree} :
    nextFieldOr default decode ts = .ok (x, rest) ↔
      (ts = [] ∧ x = default ∧ rest = []) ∨ ∃ t, ts = t :: rest ∧ decode t = .ok x := by
  cases ts with
  | nil => simp [nextFieldOr, eq_comm]
  | cons t ts =>
    have hnext : nextFieldOr default decode (t :: ts) = nextField decode (t :: ts) := rfl
    simp [hnext, nextField_eq_ok_iff]

theorem endFields_eq_ok_iff {u : Unit} : endFields closed ts = .ok u ↔ closed = true ∧ ts = [] := by
  cases closed <;> cases ts <;> simp [endFields]

end Tree

end AccessGuard
