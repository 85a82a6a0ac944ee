import AccessGuard.Proofs.Mediation
import Mathlib.Data.List.Forall2

/-!
# Data that no selector reads

A check of a list learns about an element only where the selectors of its requirements lead from
it. A selector that begins with a field leads from a record to the same place as from any other
record that has the same value in this field, or lacks it too. So two lists of records that agree
on the fields which are read first cannot be told apart: whatever else their records hold, the
subject is asked the same, the same is logged, and elements are kept at the same positions.

* `Subject.Stateless`: the answers of a subject depend on the question alone.
* `checkOne_alike`: one requirement on two lists that its selector cannot tell apart.
* `check_alike`: requirements in turn, on two lists that none of their selectors can tell apart.
* `check_ignores_unread`: two lists of records that agree on the fields which are read.
-/

namespace AccessGuard

variable {τ : Type} {subject : Subject τ} {method : String} {state later : τ}

/-! ## Subjects without a memory -/

/-- **The answers depend on the permission and on what is asked about**, and not on the state in
which they are given. -/
structure Subject.Stateless (subject : Subject τ) : Prop where
  judge_verdict : ∀ p v a b, (subject.judge p v a).verdict = (subject.judge p v b).verdict
  judge_notices : ∀ p v a b, (subject.judge p v a).notices = (subject.judge p v b).notices
  narrow_verdict : ∀ p cs a b, (subject.narrow p cs a).verdict = (subject.narrow p cs b).verdict
  narrow_left : ∀ p cs a b, (subject.narrow p cs a).left = (subject.narrow p cs b).left
  narrow_notices : ∀ p cs a b, (subject.narrow p cs a).notices = (subject.narrow p cs b).notices

theorem PrincipalSubject.stateless (s : PrincipalSubject) :
    (s.toSubject : Subject τ).Stateless := by
  have hcases (p : Permission) (cs : CandidateSet) (a b : τ) :
      (s.narrow p cs a).verdict = (s.narrow p cs b).verdict ∧
        (s.narrow p cs a).left = (s.narrow p cs b).left ∧
        (s.narrow p cs a).notices = (s.narrow p cs b).notices := by
    unfold narrow
    split <;> exact ⟨rfl, rfl, rfl⟩
  exact {
    judge_verdict := fun _ _ _ _ => rfl
    judge_notices := fun _ _ _ _ => rfl
    narrow_verdict := fun p cs a b => (hcases p cs a b).1
    narrow_left := fun p cs a b => (hcases p cs a b).2.1
    narrow_notices := fun p cs a b => (hcases p cs a b).2.2 }

/-! ## Lists that a selector cannot tell apart -/

namespace Selector

variable {s : Selector} {items others : List Value} {u v : Value}

theorem projections_congr (h : items.map s.resolve = others.map s.resolve) :
    s.projections items = s.projections others := by
  induction items generalizing others with
  | nil =>
    obtain rfl := List.map_eq_nil_iff.1 h.symm
    rfl
  | cons u us ih =>
    cases others with
    | nil => cases h
    | cons v vs =>
      rw [List.map_cons, List.map_cons, List.cons.injEq] at h
      rw [projections, projections, resolveIn_bind, resolveIn_bind, h.1, ih h.2]

/-- A projection shows of a list only where the selector leads from its elements. -/
theorem project_congr (h : items.map s.resolve = others.map s.resolve) :
    s.project items = s.project others := by
  unfold project
  rw [projections_congr h]

/-- Whether an element survives shows only where the selector leads from it. -/
theorem survives_congr (h : s.resolve u = s.resolve v) (candidates left : CandidateSet) :
    (s.retains candidates u && s.retains left u) =
      (s.retains candidates v && s.retains left v) := by
  unfold retains
  rw [h]

end Selector

theorem forall₂_filter {α : Type} {R : α → α → Prop} {keep : α → Bool} {xs ys : List α}
    (hkeep : ∀ x y, R x y → keep x = keep y) (h : List.Forall₂ R xs ys) :
    List.Forall₂ R (xs.filter keep) (ys.filter keep) := by
  refine List.rel_filter ?_ h
  intro x y hxy
  dsimp only
  rw [hkeep x y hxy]

theorem map_eq_of_forall₂ {α β : Type} {R : α → α → Prop} {f : α → β} {xs ys : List α}
    (hf : ∀ x y, R x y → f x = f y) (h : List.Forall₂ R xs ys) : xs.map f = ys.map f := by
  have hmap : List.Forall₂ Eq (xs.map f) (ys.map f) := by
    rw [List.forall₂_map_left_iff, List.forall₂_map_right_iff]
    exact h.imp hf
  rwa [List.forall₂_eq_eq_eq] at hmap

variable {r : Requirement} {rs : List Requirement} {R : Value → Value → Prop}
  {items others : List Value}

/-- **Two runs that cannot be told apart**: same verdict, same effects, and one rule that says
which elements of either list are kept, and says the same of elements that correspond. -/
structure RunsAlike (R : Value → Value → Prop) (items others : List Value)
    (run other : Run τ (Checked Value)) : Prop where
  verdict_eq : run.result.verdict = other.result.verdict
  effects_eq : run.effects = other.effects
  kept : ∃ keep : Value → Bool, (∀ u v, R u v → keep u = keep v) ∧
    run.result.value = .list (items.filter keep) ∧ other.result.value = .list (others.filter keep)

/-- Where nothing is removed, all elements are kept. -/
theorem exists_keep_all (R : Value → Value → Prop) (items others : List Value) :
    ∃ keep : Value → Bool, (∀ u v, R u v → keep u = keep v) ∧
      Value.list items = .list (items.filter keep) ∧
      Value.list others = .list (others.filter keep) := by
  have hall (vs : List Value) : vs.filter (fun _ => true) = vs := by
    rw [List.filter_eq_self]
    exact fun _ _ => rfl
  exact ⟨fun _ => true, fun _ _ _ => rfl, by rw [hall], by rw [hall]⟩

theorem askEffects_congr (hstateless : subject.Stateless) (p : Permission)
    (candidates : CandidateSet) :
    askEffects subject p candidates state = askEffects subject p candidates later := by
  unfold askEffects
  dsimp only
  rw [hstateless.narrow_notices p candidates state later,
    hstateless.narrow_left p candidates state later,
    hstateless.narrow_verdict p candidates state later]

/-- The candidates are the same and so are the answers, so the same is logged. -/
theorem narrowingEvents_congr {candidates left : CandidateSet}
    (hR : ∀ u v, R u v → r.selector.resolve u = r.selector.resolve v)
    (h : List.Forall₂ R items others) :
    narrowingEvents r candidates left items = narrowingEvents r candidates left others := by
  have hsurvivors : (survivors r.selector candidates left items).length =
      (survivors r.selector candidates left others).length := by
    have hrest := forall₂_filter
      (fun u v huv => Selector.survives_congr (hR u v huv) candidates left) h
    exact hrest.length_eq
  unfold narrowingEvents
  rw [h.length_eq, hsurvivors]

/-- **One requirement.** -/
theorem checkOne_alike (hstateless : subject.Stateless)
    (hR : ∀ u v, R u v → r.selector.resolve u = r.selector.resolve v)
    (h : List.Forall₂ R items others) :
    RunsAlike R items others (checkOne subject r (.list items) state)
      (checkOne subject r (.list others) later) := by
  have hproject : r.selector.project items = r.selector.project others :=
    Selector.project_congr (map_eq_of_forall₂ hR h)
  rw [checkOne, checkOne]
  cases hp : r.selector.project items with
  | error e =>
    rw [checkCollection_of_unprojected subject r state hp,
      checkCollection_of_unprojected subject r later (hproject.symm.trans hp)]
    exact ⟨rfl, rfl, exists_keep_all R items others⟩
  | ok candidates =>
    have hp' := hproject.symm.trans hp
    have hverdict := hstateless.narrow_verdict r.permission candidates state later
    have hasked : askEffects subject r.permission candidates state =
        askEffects subject r.permission candidates later := askEffects_congr hstateless _ _
    cases hv : (subject.narrow r.permission candidates state).verdict with
    | error d =>
      rw [checkCollection_of_refused subject r state hp hv,
        checkCollection_of_refused subject r later hp' (hverdict.symm.trans hv)]
      exact ⟨rfl, hasked, exists_keep_all R items others⟩
    | ok _ =>
      have hleft := hstateless.narrow_left r.permission candidates state later
      rw [checkCollection_of_agreed subject r state hp hv,
        checkCollection_of_agreed subject r later hp' (hverdict.symm.trans hv)]
      refine ⟨rfl, ?_, fun v => r.selector.retains candidates v &&
        r.selector.retains (subject.narrow r.permission candidates state).left v, ?_, rfl, ?_⟩
      · dsimp only
        rw [hasked, hleft, narrowingEvents_congr hR h]
      · intro u v huv
        exact Selector.survives_congr (hR u v huv) candidates _
      · dsimp only
        rw [hleft]
        rfl

/-- **Requirements in turn.** What the first one keeps of the two lists cannot be told apart by
the others. -/
theorem check_alike (hstateless : subject.Stateless) (method : String) (state later : τ)
    (hR : ∀ r ∈ rs, ∀ u v, R u v → r.selector.resolve u = r.selector.resolve v)
    (h : List.Forall₂ R items others) :
    RunsAlike R items others (check subject method rs (.list items) state)
      (check subject method rs (.list others) later) := by
  induction rs generalizing items others state later with
  | nil => exact ⟨rfl, rfl, exists_keep_all R items others⟩
  | cons r rs ih =>
    have hfirst : RunsAlike R items others (checkOne subject r (.list items) state)
        (checkOne subject r (.list others) later) :=
      checkOne_alike hstateless (hR r List.mem_cons_self) h
    obtain ⟨hverdict, heffects, keep, hkeep, hvalue, hvalue'⟩ := hfirst
    cases hv : (checkOne subject r (.list items) state).result.verdict with
    | error e =>
      rw [check_cons_of_error hv, check_cons_of_error (hverdict.symm.trans hv)]
      exact ⟨hverdict, by rw [heffects], keep, hkeep, hvalue, hvalue'⟩
    | ok _ =>
      rw [check_cons_of_ok hv, check_cons_of_ok (hverdict.symm.trans hv)]
      dsimp only
      rw [hvalue, hvalue', heffects]
      obtain ⟨hverdict', heffects', keep', hkeep', hrest, hrest'⟩ :=
        ih (checkOne subject r (.list items) state).state
          (checkOne subject r (.list others) later).state
          (fun r hr => hR r (List.mem_cons_of_mem _ hr)) (forall₂_filter hkeep h)
      refine ⟨hverdict', by rw [heffects'], fun v => keep' v && keep v, ?_, ?_, ?_⟩
      · intro u v huv
        dsimp only
        rw [hkeep u v huv, hkeep' u v huv]
      · rw [hrest, List.filter_filter]
      · rw [hrest', List.filter_filter]

/-! ## Records that agree on the fields which are read -/

/-- The field that is read first, where the first step is one to a field. -/
def Selector.firstField? (s : Selector) : Option String :=
  match s.steps with
  | .field name :: _ => some name
  | _ => none

/-- Two records that have the same of some fields, and lack the same of them. -/
structure AgreeOn (names : List String) (u v : Value) : Prop where
  left : u.kind = .record
  right : v.kind = .record
  field : ∀ name ∈ names, u.field? name = v.field? name

theorem Value.project_of_record {v : Value} (h : v.kind = .record) (name : String) :
    v.project name = match v.field? name with
      | some w => .ok w
      | none => .error (.missingField name) := by
  cases v with
  | record fields =>
    cases hfield : fields.lookup name <;> simp only [project, field?, hfield]
  | _ => cases h

/-- **A selector that begins with a field** leads from a record where its other steps lead from
the value of this field. -/
theorem Selector.resolve_eq_of_firstField {s : Selector} {name : String} {u v : Value}
    (h : s.firstField? = some name) (hu : u.kind = .record) (hv : v.kind = .record)
    (hfield : u.field? name = v.field? name) : s.resolve u = s.resolve v := by
  obtain ⟨binding, steps⟩ := s
  unfold firstField? at h
  split at h
  · rename_i first rest hsteps
    cases h
    obtain rfl : steps = .field name :: rest := hsteps
    unfold resolve
    rw [Step.applyAll, Step.applyAll, Step.apply, Step.apply, Value.project_of_record hu,
      Value.project_of_record hv, hfield]
  · cases h

/-- **Unread data never influences a check.** Every selector begins with a field, and the records
of two lists agree, position by position, on these fields. Then the verdict is the same, and so
are the questions, the answers and what is logged; and the elements that are kept stand at the
same positions of both lists. -/
theorem check_ignores_unread (subject : Subject τ) (hstateless : subject.Stateless)
    (method : String) (rs : List Requirement)
    (hfirst : ∀ r ∈ rs, ∃ name, r.selector.firstField? = some name) (items others : List Value)
    (hagree : List.Forall₂ (AgreeOn (rs.filterMap fun r => r.selector.firstField?)) items others)
    (state later : τ) :
    let run := check subject method rs (.list items) state
    let other := check subject method rs (.list others) later
    run.result.verdict = other.result.verdict ∧ run.effects = other.effects ∧
      ∃ keep : Value → Bool, items.map keep = others.map keep ∧
        run.result.value = .list (items.filter keep) ∧
        other.result.value = .list (others.filter keep) := by
  dsimp only
  have hR : ∀ r ∈ rs, ∀ u v, AgreeOn (rs.filterMap fun r => r.selector.firstField?) u v →
      r.selector.resolve u = r.selector.resolve v := by
    intro r hr u v huv
    obtain ⟨name, hname⟩ := hfirst r hr
    have hread : name ∈ rs.filterMap fun r => r.selector.firstField? :=
      List.mem_filterMap.2 ⟨r, hr, hname⟩
    exact Selector.resolve_eq_of_firstField hname huv.left huv.right (huv.field name hread)
  obtain ⟨hverdict, heffects, keep, hkeep, hvalue, hvalue'⟩ :=
    check_alike hstateless method state later hR hagree
  exact ⟨hverdict, heffects, keep, map_eq_of_forall₂ hkeep hagree, hvalue, hvalue'⟩

namespace Sample

/-- A case with its unit, which is not read by county. -/
def caseOf (county unit : String) : Value := .record [("county", .str county), ("unit", .str unit)]

end Sample

/-- The units of the cases are other ones in the second list, where one of them even bears the
name of a county. -/
theorem check_ignores_unread_sample :
    let subject : Subject Unit := (PrincipalSubject.of Sample.viewer .empty).toSubject
    let rs := [Sample.byCounty "cases"]
    let items := [Sample.caseOf "south" "a", Sample.caseOf "north" "b", Sample.caseOf "south" "c"]
    let others := [Sample.caseOf "south" "north", Sample.case "north", Sample.case "south"]
    let run := check subject "cases.list" rs (.list items) ()
    let other := check subject "cases.list" rs (.list others) ()
    subject.Stateless ∧ (∀ r ∈ rs, ∃ name, r.selector.firstField? = some name) ∧
    List.Forall₂ (AgreeOn ["county"]) items others ∧
    run.effects = other.effects ∧ ∃ keep : Value → Bool,
      items.map keep = others.map keep ∧ run.result.value = .list (items.filter keep) ∧
        other.result.value = .list (others.filter keep) := by
  intro subject rs items others run other
  have hstateless : subject.Stateless := PrincipalSubject.stateless _
  have hfirst : ∀ r ∈ rs, ∃ name, r.selector.firstField? = some name := by
    intro r hr
    exact ⟨"county", by rw [List.mem_singleton.1 hr]; rfl⟩
  have hagree : List.Forall₂ (AgreeOn ["county"]) items others := by
    refine .cons ⟨rfl, rfl, ?_⟩ (.cons ⟨rfl, rfl, ?_⟩ (.cons ⟨rfl, rfl, ?_⟩ .nil)) <;>
      exact List.forall_mem_singleton.2 rfl
  obtain ⟨-, heffects, hkept⟩ := check_ignores_unread subject hstateless "cases.list" rs hfirst
    items others hagree () ()
  exact ⟨hstateless, hfirst, hagree, heffects, hkept⟩

end AccessGuard
