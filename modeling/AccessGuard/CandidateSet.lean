import AccessGuard.Value.Order

/-!
# Candidate sets

The distinct values that a collection projects to, handed to a subject which may remove
some of them. A set lists its members in ascending order, so sets with the same members
are equal.

* `CandidateSet.mem_ofList`: the set of a list has exactly the values of the list.
* `CandidateSet.ext_mem`: sets with the same members are equal.
* `CandidateSet.mem_retain`, `CandidateSet.mem_remove`: what narrowing leaves.
* `CandidateSet.search_eq_contains`, `CandidateSet.withdraw_eq`: a value is looked up, and taken
  out, at its place in the order.
-/

namespace AccessGuard

/-- A finite set of values. -/
@[ext] structure CandidateSet where
  members : List Value
  ascending : members.Pairwise fun v w => compare v w = .lt
deriving DecidableEq

/-- Puts a value into its place, unless it is there. -/
def insertValue (v : Value) : List Value → List Value
  | [] => [v]
  | w :: rest =>
    match compare v w with
    | .lt => v :: w :: rest
    | .eq => w :: rest
    | .gt => w :: insertValue v rest

theorem mem_insertValue {u v : Value} {vs : List Value} :
    u ∈ insertValue v vs ↔ u = v ∨ u ∈ vs := by
  induction vs with
  | nil => simp [insertValue]
  | cons w rest ih =>
    rw [insertValue]
    split
    case h_1 => exact List.mem_cons
    case h_2 h => simp [Std.compare_eq_iff_eq.1 h]
    case h_3 => simp only [List.mem_cons, ih]; exact or_left_comm

theorem pairwise_insertValue {v : Value} {vs : List Value}
    (h : vs.Pairwise fun v w => compare v w = .lt) :
    (insertValue v vs).Pairwise fun v w => compare v w = .lt := by
  induction vs with
  | nil => simp [insertValue]
  | cons w rest ih =>
    obtain ⟨hw, hrest⟩ := List.pairwise_cons.1 h
    rw [insertValue]
    split
    case h_1 hv =>
      refine List.pairwise_cons.2 ⟨fun u hu => ?_, h⟩
      rcases List.mem_cons.1 hu with rfl | hu
      · exact hv
      · exact Std.TransCmp.lt_trans hv (hw u hu)
    case h_2 => exact h
    case h_3 hv =>
      refine List.pairwise_cons.2 ⟨fun u hu => ?_, ih hrest⟩
      rcases mem_insertValue.1 hu with rfl | hu
      · exact Std.OrientedCmp.lt_of_gt hv
      · exact hw u hu

/-- Looks a value up among ascending ones, no further than to its place. -/
def findValue (v : Value) : List Value → Bool
  | [] => false
  | w :: rest =>
    match compare v w with
    | .lt => false
    | .eq => true
    | .gt => findValue v rest

/-- Takes a value out of its place among ascending ones; also tells whether it was there. -/
def eraseValue (v : Value) : List Value → Bool × List Value
  | [] => (false, [])
  | w :: rest =>
    match compare v w with
    | .lt => (false, w :: rest)
    | .eq => (true, rest)
    | .gt =>
      let (found, left) := eraseValue v rest
      (found, w :: left)

/-- What is below all of the values is none of them. -/
theorem not_mem_of_below {v : Value} {vs : List Value} (h : ∀ w ∈ vs, compare v w = .lt) :
    v ∉ vs := by
  intro hv
  have hlt : compare v v = .lt := h v hv
  simp [Std.compare_self] at hlt

theorem findValue_eq {v : Value} {vs : List Value}
    (h : vs.Pairwise fun v w => compare v w = .lt) : findValue v vs = decide (v ∈ vs) := by
  induction vs with
  | nil => simp [findValue]
  | cons w rest ih =>
    obtain ⟨hw, hrest⟩ := List.pairwise_cons.1 h
    rw [findValue]
    split
    case h_1 hv =>
      have hbelow : v ∉ w :: rest := not_mem_of_below <|
        List.forall_mem_cons.2 ⟨hv, fun u hu => Std.TransCmp.lt_trans hv (hw u hu)⟩
      exact (decide_eq_false hbelow).symm
    case h_2 hv => simp [Std.compare_eq_iff_eq.1 hv]
    case h_3 hv =>
      have hne : v ≠ w := by
        rintro rfl
        simp [Std.compare_self] at hv
      rw [ih hrest]
      simp [hne]

theorem eraseValue_eq {v : Value} {vs : List Value}
    (h : vs.Pairwise fun v w => compare v w = .lt) :
    eraseValue v vs = (decide (v ∈ vs), vs.filter fun w => decide (w ≠ v)) := by
  have untouched {ws : List Value} (hws : v ∉ ws) : ws.filter (fun w => decide (w ≠ v)) = ws := by
    rw [List.filter_eq_self]
    rintro w hw
    exact decide_eq_true fun he => hws (he ▸ hw)
  induction vs with
  | nil => simp [eraseValue]
  | cons w rest ih =>
    obtain ⟨hw, hrest⟩ := List.pairwise_cons.1 h
    rw [eraseValue]
    split
    case h_1 hv =>
      have hbelow : v ∉ w :: rest := not_mem_of_below <|
        List.forall_mem_cons.2 ⟨hv, fun u hu => Std.TransCmp.lt_trans hv (hw u hu)⟩
      rw [untouched hbelow, decide_eq_false hbelow]
    case h_2 hv =>
      obtain rfl := Std.compare_eq_iff_eq.1 hv
      rw [List.filter_cons_of_neg (by simp), untouched (not_mem_of_below hw)]
      simp
    case h_3 hv =>
      have hne : v ≠ w := by
        rintro rfl
        simp [Std.compare_self] at hv
      rw [ih hrest, List.filter_cons_of_pos (by simpa using Ne.symm hne)]
      simp [hne]

namespace CandidateSet

/-- No candidates. -/
def empty : CandidateSet := ⟨[], List.Pairwise.nil⟩

instance : Inhabited CandidateSet := ⟨empty⟩

/-- One member more, at its place in the order. -/
def insert (v : Value) (s : CandidateSet) : CandidateSet :=
  ⟨insertValue v s.members, pairwise_insertValue s.ascending⟩

/-- The distinct values of a list. -/
def ofList (vs : List Value) : CandidateSet := vs.foldr insert empty

/-- The number of members. -/
def size (s : CandidateSet) : Nat := s.members.length

/-- Are there no members? -/
def isEmpty (s : CandidateSet) : Bool := s.members.isEmpty

instance : Membership Value CandidateSet := ⟨fun s v => v ∈ s.members⟩

instance (v : Value) (s : CandidateSet) : Decidable (v ∈ s) :=
  inferInstanceAs (Decidable (v ∈ s.members))

/-- Is a value a member? -/
def contains (s : CandidateSet) (v : Value) : Bool := decide (v ∈ s)

/-- Keeps the members that pass a test. -/
def retain (keep : Value → Bool) (s : CandidateSet) : CandidateSet :=
  ⟨s.members.filter keep, s.ascending.filter keep⟩

/-- All members but one value. -/
def remove (v : Value) (s : CandidateSet) : CandidateSet := s.retain fun w => decide (w ≠ v)

/-- Looks a value up at its place in the order. -/
def search (s : CandidateSet) (v : Value) : Bool := findValue v s.members

/-- Takes a value out of its place in the order; also tells whether it was a member. -/
def withdraw (v : Value) (s : CandidateSet) : Bool × CandidateSet :=
  ((eraseValue v s.members).1, ⟨(eraseValue v s.members).2, by
    rw [eraseValue_eq s.ascending]
    exact s.ascending.filter _⟩)

@[simp] theorem not_mem_empty (v : Value) : v ∉ empty := List.not_mem_nil

@[simp] theorem mem_insert {u v : Value} {s : CandidateSet} : u ∈ s.insert v ↔ u = v ∨ u ∈ s :=
  mem_insertValue

@[simp] theorem mem_ofList {v : Value} {vs : List Value} : v ∈ ofList vs ↔ v ∈ vs := by
  induction vs with
  | nil => simp [ofList]
  | cons w vs ih => rw [List.mem_cons, ← ih]; exact mem_insert

@[simp] theorem mem_retain {v : Value} {s : CandidateSet} {keep : Value → Bool} :
    v ∈ s.retain keep ↔ v ∈ s ∧ keep v = true := List.mem_filter

@[simp] theorem mem_remove {u v : Value} {s : CandidateSet} : u ∈ s.remove v ↔ u ∈ s ∧ u ≠ v := by
  simp [remove]

@[simp] theorem contains_eq_true {v : Value} {s : CandidateSet} : s.contains v = true ↔ v ∈ s :=
  decide_eq_true_iff

theorem search_eq_contains (s : CandidateSet) (v : Value) : s.search v = s.contains v :=
  findValue_eq s.ascending

theorem withdraw_eq (v : Value) (s : CandidateSet) : s.withdraw v = (s.contains v, s.remove v) := by
  have h := eraseValue_eq (v := v) s.ascending
  have hfound : (s.withdraw v).1 = s.contains v := congrArg Prod.fst h
  have hleft : (s.withdraw v).2.members = (s.remove v).members := congrArg Prod.snd h
  exact Prod.ext hfound (CandidateSet.ext hleft)

theorem nodup (s : CandidateSet) : s.members.Nodup :=
  s.ascending.imp fun h he => by simp [he, Std.compare_self] at h

/-- **Sets with the same members are equal.** -/
theorem ext_mem {s t : CandidateSet} (h : ∀ v, v ∈ s ↔ v ∈ t) : s = t := by
  obtain ⟨vs, hs⟩ := s
  obtain ⟨ws, ht⟩ := t
  congr 1
  replace h : ∀ v, v ∈ vs ↔ v ∈ ws := h
  induction vs generalizing ws with
  | nil => exact (List.eq_nil_iff_forall_not_mem.2 fun v hv => List.not_mem_nil ((h v).2 hv)).symm
  | cons v vs ih =>
    cases ws with
    | nil => exact absurd ((h v).1 List.mem_cons_self) List.not_mem_nil
    | cons w ws =>
      obtain ⟨hv, hs⟩ := List.pairwise_cons.1 hs
      obtain ⟨hw, ht'⟩ := List.pairwise_cons.1 ht
      have irrefl (u : Value) : compare u u ≠ .lt := by simp [Std.compare_self]
      -- each head is the least member of both lists
      have hvw : v = w := by
        rcases List.mem_cons.1 ((h v).1 List.mem_cons_self) with rfl | hvm
        · rfl
        · rcases List.mem_cons.1 ((h w).2 List.mem_cons_self) with rfl | hwm
          · rfl
          · exact absurd (Std.TransCmp.lt_trans (hw v hvm) (hv w hwm)) (irrefl w)
      subst hvw
      congr 1
      refine ih hs ws ht' fun u => ⟨fun hu => ?_, fun hu => ?_⟩
      · rcases List.mem_cons.1 ((h u).1 (List.mem_cons_of_mem _ hu)) with rfl | hu'
        · exact absurd (hv u hu) (irrefl u)
        · exact hu'
      · rcases List.mem_cons.1 ((h u).2 (List.mem_cons_of_mem _ hu)) with rfl | hu'
        · exact absurd (hw u hu) (irrefl u)
        · exact hu'

end CandidateSet

end AccessGuard
