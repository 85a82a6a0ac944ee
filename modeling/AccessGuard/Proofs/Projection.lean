import AccessGuard.Evaluation

/-!
# Projections of a collection

A collection is projected element by element, so the projection of a collection and the two
passes over it, one for the candidates and one for the elements that stay, are determined by
where the selector leads from each element.

* `mem_of_project`: the candidates of a collection are the projections of its elements.
* `project_eq_error_iff`: the first element from which the selector leads nowhere decides why a
  collection cannot be projected.
* `filter_eq`: a collection that was projected can be filtered, and what stays are the elements
  whose projection is retained.
* `project_filter`: filtering takes exactly the other candidates away.
-/

namespace AccessGuard

theorem CandidateSet.retain_of_forall {s : CandidateSet} {keep : Value → Bool}
    (h : ∀ v ∈ s, keep v = true) : s.retain keep = s := by
  apply ext_mem
  intro v
  rw [mem_retain]
  exact and_iff_left_of_imp (h v)

/-- **A subset of the same size is the whole set.** -/
theorem CandidateSet.retain_eq_self {s : CandidateSet} {keep : Value → Bool}
    (h : (s.retain keep).size = s.size) : s.retain keep = s := by
  have hall : ∀ v ∈ s.members, keep v = true := List.length_filter_eq_length_iff.1 h
  exact retain_of_forall hall

theorem CandidateSet.retain_contains_comm (s t : CandidateSet) :
    s.retain t.contains = t.retain s.contains := by
  apply ext_mem
  intro v
  simp only [mem_retain, contains_eq_true]
  exact And.comm

namespace Selector

variable {s : Selector} {items ws : List Value} {candidates retained : CandidateSet}

/-- Does the selector lead from an element to a retained value? -/
def retains (s : Selector) (retained : CandidateSet) (v : Value) : Bool :=
  match s.resolve v with
  | .ok w => retained.contains w
  | .error _ => false

theorem retains_eq_true {v : Value} :
    s.retains retained v = true ↔ ∃ w, s.resolve v = .ok w ∧ w ∈ retained := by
  unfold retains
  cases s.resolve v <;> simp

/-- What both of two sets retain, their common members retain. -/
theorem retains_retain (s : Selector) (a b : CandidateSet) (v : Value) :
    s.retains (a.retain b.contains) v = (s.retains a v && s.retains b v) := by
  unfold retains
  cases s.resolve v with
  | error e => rfl
  | ok w =>
    rw [Bool.eq_iff_iff, Bool.and_eq_true]
    simp only [CandidateSet.contains_eq_true, CandidateSet.mem_retain]

/-! ## Both passes, element by element -/

theorem resolves_of_projections (h : s.projections items = .ok ws) :
    items.map s.resolve = ws.map .ok := by
  induction items generalizing ws with
  | nil => cases h; rfl
  | cons v vs ih =>
    rw [projections, resolveIn_bind] at h
    cases hv : s.resolve v with
    | error e => rw [hv] at h; cases h
    | ok w =>
      rw [hv] at h
      cases hvs : s.projections vs with
      | error e => rw [hvs] at h; cases h
      | ok us =>
        rw [hvs] at h
        cases h
        rw [List.map_cons, List.map_cons, hv, ih hvs]

theorem projections_of_resolves (h : items.map s.resolve = ws.map .ok) :
    s.projections items = .ok ws := by
  induction items generalizing ws with
  | nil => cases ws <;> simp_all [projections]
  | cons v vs ih =>
    cases ws with
    | nil => cases h
    | cons w us =>
      rw [List.map_cons, List.map_cons, List.cons.injEq] at h
      rw [projections, resolveIn_bind, h.1, ih h.2]
      rfl

theorem project_eq_ok_iff :
    s.project items = .ok candidates ↔
      ∃ ws, items.map s.resolve = ws.map .ok ∧ CandidateSet.ofList ws = candidates := by
  unfold project
  constructor
  · intro h
    cases hp : s.projections items with
    | error e => rw [hp] at h; cases h
    | ok ws => rw [hp] at h; cases h; exact ⟨ws, resolves_of_projections hp, rfl⟩
  · rintro ⟨ws, hws, rfl⟩
    rw [projections_of_resolves hws]; rfl

/-- **What is projected is what the elements lead to.** -/
theorem mem_of_project (h : s.project items = .ok candidates) {w : Value} :
    w ∈ candidates ↔ ∃ v ∈ items, s.resolve v = .ok w := by
  obtain ⟨ws, hws, rfl⟩ := project_eq_ok_iff.1 h
  have hm : w ∈ ws ↔ .ok w ∈ items.map s.resolve := by rw [hws]; simp
  rw [CandidateSet.mem_ofList, hm, List.mem_map]

/-- Every element of a collection that was projected leads to a candidate. -/
theorem resolves_of_project (h : s.project items = .ok candidates) {v : Value} (hv : v ∈ items) :
    ∃ w ∈ candidates, s.resolve v = .ok w := by
  obtain ⟨ws, hws, rfl⟩ := project_eq_ok_iff.1 h
  have hm : s.resolve v ∈ ws.map .ok := hws ▸ List.mem_map_of_mem hv
  obtain ⟨w, hw, he⟩ := List.mem_map.1 hm
  exact ⟨w, CandidateSet.mem_ofList.2 hw, he.symm⟩

/-- A collection can be projected when each of its elements leads somewhere. -/
theorem project_of_resolves (h : ∀ v ∈ items, ∃ w, s.resolve v = .ok w) :
    ∃ candidates, s.project items = .ok candidates := by
  suffices ∃ ws : List Value, items.map s.resolve = ws.map .ok by
    obtain ⟨ws, hws⟩ := this
    exact ⟨_, project_eq_ok_iff.2 ⟨ws, hws, rfl⟩⟩
  induction items with
  | nil => exact ⟨[], rfl⟩
  | cons v vs ih =>
    obtain ⟨w, hw⟩ := h v List.mem_cons_self
    obtain ⟨ws, hws⟩ := ih fun u hu => h u (List.mem_cons_of_mem v hu)
    exact ⟨w :: ws, by rw [List.map_cons, List.map_cons, hw, hws]⟩

/-- **The first element from which the selector leads nowhere**, and why. -/
def FirstFault (s : Selector) (items : List Value) (e : EvaluationError) : Prop :=
  ∃ before v after, items = before ++ v :: after ∧
    (∀ u ∈ before, ∃ w, s.resolve u = .ok w) ∧ s.resolve v = .error e

theorem not_firstFault_nil {e : EvaluationError} : ¬ s.FirstFault [] e := by
  rintro ⟨before, v, after, hitems, -, -⟩
  cases before <;> cases hitems

theorem firstFault_cons {v : Value} {vs : List Value} {e : EvaluationError} :
    s.FirstFault (v :: vs) e ↔
      s.resolve v = .error e ∨ (∃ w, s.resolve v = .ok w) ∧ s.FirstFault vs e := by
  constructor
  · rintro ⟨before, u, after, hitems, hbefore, hu⟩
    cases before with
    | nil => cases hitems; exact .inl hu
    | cons first before =>
      cases hitems
      rw [List.forall_mem_cons] at hbefore
      exact .inr ⟨hbefore.1, before, u, after, rfl, hbefore.2, hu⟩
  · rintro (hv | ⟨hv, before, u, after, rfl, hbefore, hu⟩)
    · exact ⟨[], v, vs, rfl, List.forall_mem_nil _, hv⟩
    · exact ⟨v :: before, u, after, rfl, List.forall_mem_cons.2 ⟨hv, hbefore⟩, hu⟩

theorem projections_eq_error_iff {e : EvaluationError} :
    s.projections items = .error e ↔ s.FirstFault items e := by
  induction items with
  | nil => exact iff_of_false nofun not_firstFault_nil
  | cons v vs ih =>
    rw [firstFault_cons, projections, resolveIn_bind, ← ih]
    cases s.resolve v with
    | error e' => simp
    | ok w => cases s.projections vs <;> simp [Except.map]

/-- **A collection cannot be projected** where the selector leads nowhere from an element, and the
first such element decides why. -/
theorem project_eq_error_iff {e : EvaluationError} :
    s.project items = .error e ↔ s.FirstFault items e := by
  rw [← projections_eq_error_iff, project]
  cases s.projections items <;> simp [Except.map]

/-- A collection that cannot be projected has an element that leads nowhere, for that reason. -/
theorem resolves_of_project_error {e : EvaluationError} (h : s.project items = .error e) :
    ∃ v ∈ items, s.resolve v = .error e := by
  obtain ⟨before, v, after, rfl, -, hv⟩ := project_eq_error_iff.1 h
  exact ⟨v, List.mem_append_right before List.mem_cons_self, hv⟩

/-- Where the selector leads nowhere from some element, it does so from a first one. -/
theorem exists_firstFault_iff :
    (∃ e, s.FirstFault items e) ↔ ∃ v ∈ items, ∃ e, s.resolve v = .error e := by
  constructor
  · rintro ⟨e, before, v, after, rfl, -, hv⟩
    exact ⟨v, List.mem_append_right before List.mem_cons_self, e, hv⟩
  · rintro ⟨v, hv, e, he⟩
    cases h : s.project items with
    | error e' => exact ⟨e', project_eq_error_iff.1 h⟩
    | ok candidates =>
      obtain ⟨w, -, hw⟩ := resolves_of_project h hv
      cases hw.symm.trans he

/-- **Flags stay with their elements**: the flags are taken one by one, and each was computed from
the element at its place. -/
theorem keepFlagged_eq_filter (h : items.map s.resolve = ws.map .ok) :
    keepFlagged items (ws.map retained.contains) = items.filter (s.retains retained) := by
  induction items generalizing ws with
  | nil => rfl
  | cons v vs ih =>
    cases ws with
    | nil => cases h
    | cons w us =>
      rw [List.map_cons, List.map_cons, List.cons.injEq] at h
      have hr : s.retains retained v = retained.contains w := by unfold retains; rw [h.1]
      rw [List.map_cons, keepFlagged, List.filter_cons, hr, ih h.2]

/-- A collection that was projected is filtered, and those that are gone are counted. -/
theorem filterInPlace_of_project (h : s.project items = .ok candidates) :
    s.filterInPlace items retained =
      ⟨.ok (items.length - (items.filter (s.retains retained)).length),
        items.filter (s.retains retained)⟩ := by
  obtain ⟨ws, hws, -⟩ := project_eq_ok_iff.1 h
  have hflags : s.flags retained items = .ok (ws.map retained.contains) := by
    rw [flags, projections_of_resolves hws]; rfl
  unfold filterInPlace
  rw [hflags]
  dsimp only
  rw [keepFlagged_eq_filter hws]

/-- **The second pass does not fail after the first**, whatever is retained. -/
theorem filter_eq (h : s.project items = .ok candidates) :
    s.filter items retained = .ok (items.filter (s.retains retained)) := by
  rw [filter, filterInPlace_of_project h]; rfl

/-! ## What filtering leaves -/

/-- Where all candidates are retained, nothing is filtered out. -/
theorem filter_retains_self (h : s.project items = .ok candidates) :
    items.filter (s.retains candidates) = items := by
  rw [List.filter_eq_self]
  intro v hv
  obtain ⟨w, hw, he⟩ := resolves_of_project h hv
  exact retains_eq_true.2 ⟨w, he, hw⟩

/-- **The candidates after filtering are those that were retained.** -/
theorem project_filter (h : s.project items = .ok candidates) :
    s.project (items.filter (s.retains retained)) = .ok (retained.retain candidates.contains) := by
  have hres : ∀ v ∈ items.filter (s.retains retained), ∃ w, s.resolve v = .ok w := by
    intro v hv
    obtain ⟨w, -, hw⟩ := resolves_of_project h (List.mem_filter.1 hv).1
    exact ⟨w, hw⟩
  obtain ⟨left, hleft⟩ := project_of_resolves hres
  rw [hleft]
  congr 1
  apply CandidateSet.ext_mem
  intro w
  rw [mem_of_project hleft, CandidateSet.mem_retain, CandidateSet.contains_eq_true,
    mem_of_project h]
  constructor
  · rintro ⟨v, hv, hw⟩
    -- an element that stays leads where it led before
    obtain ⟨hv, hkept⟩ := List.mem_filter.1 hv
    obtain ⟨u, hu, hr⟩ := retains_eq_true.1 hkept
    cases hw.symm.trans hu
    exact ⟨hr, v, hv, hw⟩
  · rintro ⟨hr, v, hv, hw⟩
    exact ⟨v, List.mem_filter.2 ⟨hv, retains_eq_true.2 ⟨w, hw, hr⟩⟩, hw⟩

end Selector

end AccessGuard
