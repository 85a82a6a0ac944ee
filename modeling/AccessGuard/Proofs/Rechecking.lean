import AccessGuard.Proofs.Reordering

/-!
# Checking again

A check that has succeeded leaves a value on which its requirements are settled: of a list every
element is granted by every requirement, also by those whose turn came before an element was taken
away by a later one, and domain and action are covered even if no element is left; any other value
is as it was. On such a value each question to the subject is answered in full, so no set of
candidates becomes smaller, no element goes, and there is nothing to report.

* `PrincipalSubject.narrow_of_implied`: candidates that are all implied.
* `check_of_settled`: a check of settled requirements, in closed form.
* `check_result_eq_iff`: a check leaves a value as it is exactly if its requirements are settled.
* `check_idempotent`: the same check again.
-/

namespace AccessGuard

variable {σ τ : Type} {s : PrincipalSubject} {method : String} {r : Requirement}
  {rs : List Requirement} {state : σ} {v : Value} {items : List Value}

/-! ## Questions that are answered in full -/

/-- **An answer in full**: the value is allowed, or all candidates are left. -/
inductive Effect.InFull : Effect → Prop where
  | judged (p : Permission) (v : Value) : InFull (.judged p v true)
  | narrowed (p : Permission) (candidates : CandidateSet) :
      InFull (.narrowed p candidates candidates true)

/-- Answers are not logged. -/
theorem log_of_inFull {effects : List Effect} (h : ∀ effect ∈ effects, effect.InFull) :
    effects.filterMap Effect.record? = [] := by
  rw [List.filterMap_eq_nil_iff]
  intro effect heffect
  have hfull : effect.InFull := h effect heffect
  cases hfull <;> rfl

/-- **Candidates that are all implied** are all left, and the subject has nothing to notice. -/
theorem PrincipalSubject.narrow_of_implied {p : Permission} {candidates : CandidateSet}
    (hcovers : s.covers p = true) (himplied : ∀ v ∈ candidates, Implied s.grants p v) :
    s.narrow p candidates state = ⟨.ok (), candidates, [], state⟩ := by
  have hallows : ∀ v ∈ candidates, s.allows p v = true := by
    intro v hv
    exact allows_iff.2 (himplied v hv)
  have hleft : candidates.retain (s.allows p) = candidates := CandidateSet.retain_of_forall hallows
  unfold narrow
  rw [if_pos hcovers, hleft]
  dsimp only
  rw [if_pos rfl]

/-- Values that are all implied are allowed one after the other. -/
theorem askEach_of_implied {p : Permission} {vs : List Value}
    (himplied : ∀ v ∈ vs, Implied s.grants p v) :
    askEach s.toSubject p vs state = ⟨.ok (), vs.map (.judged p · true), state⟩ := by
  induction vs with
  | nil => rfl
  | cons v vs ih =>
    obtain ⟨hv, hvs⟩ := List.forall_mem_cons.1 himplied
    have hallows : s.allows p v = true := PrincipalSubject.allows_iff.2 hv
    have hjudge : s.judge p v state = ⟨.ok (), [], state⟩ := by
      unfold PrincipalSubject.judge
      rw [if_pos hallows]
    have hanswer : s.toSubject.judge p v state = ⟨.ok (), [], state⟩ := hjudge
    rw [askEach, hanswer]
    dsimp only
    rw [ih hvs]
    rfl

/-! ## One requirement -/

/-- **A requirement is settled on a value**: it is granted on every element of a list, and on a
value that is no list throughout. Domain and action of the requirement are covered for a list also
if it is empty. -/
inductive Requirement.Settled (s : PrincipalSubject) (r : Requirement) : Value → Prop where
  | elements {items : List Value} : s.covers r.permission = true →
      (∀ element ∈ items, r.GrantedOn s.grants element) → Settled s r (.list items)
  | whole {v : Value} : v.isList = false → r.GrantedThroughout s.grants v → Settled s r v

/-- A list on which a requirement is settled keeps all of its candidates, so the guard does not
filter it. -/
theorem checkCollection_of_granted (hcovers : s.covers r.permission = true)
    (hgranted : ∀ element ∈ items, r.GrantedOn s.grants element) (state : σ) :
    ∃ candidates, checkCollection s.toSubject r items state =
      ⟨⟨.ok (), items⟩, [.narrowed r.permission candidates candidates true], state⟩ := by
  have hresolves : ∀ element ∈ items, ∃ w, r.selector.resolve element = .ok w := by
    intro element helement
    obtain ⟨w, hw, -⟩ := hgranted element helement
    exact ⟨w, hw⟩
  obtain ⟨candidates, hp⟩ := Selector.project_of_resolves hresolves
  have himplied : ∀ w ∈ candidates, Implied s.grants r.permission w := by
    intro w hw
    -- a candidate is what some element leads to
    obtain ⟨element, helement, hresolve⟩ := (Selector.mem_of_project hp).1 hw
    obtain ⟨u, hu, hi⟩ := hgranted element helement
    cases hresolve.symm.trans hu
    exact hi
  have hnarrow : s.toSubject.narrow r.permission candidates state =
      ⟨.ok (), candidates, [], state⟩ := PrincipalSubject.narrow_of_implied hcovers himplied
  have hself : candidates.retain candidates.contains = candidates :=
    CandidateSet.retain_of_forall fun w hw => CandidateSet.contains_eq_true.2 hw
  have hsize : (candidates.retain candidates.contains).size = candidates.size :=
    congrArg CandidateSet.size hself
  have hevents : narrowingEvents r candidates candidates items = [] := if_pos hsize
  have hask : askEffects s.toSubject r.permission candidates state =
      [.narrowed r.permission candidates candidates true] := by
    unfold askEffects
    rw [hnarrow]
    rfl
  refine ⟨candidates, ?_⟩
  rw [checkCollection_of_agreed s.toSubject r state hp (by rw [hnarrow]), hask, hnarrow]
  dsimp only
  rw [survivors_of_size_eq hp hsize, hevents]
  rfl

/-- **The check of a settled requirement** does nothing but ask, and is answered in full. -/
theorem checkOne_of_settled (h : r.Settled s v) (state : σ) :
    ∃ questions, (∀ question ∈ questions, question.InFull) ∧
      checkOne s.toSubject r v state = ⟨⟨.ok (), v⟩, questions, state⟩ := by
  cases h with
  | elements hcovers hgranted =>
    obtain ⟨candidates, hrun⟩ := checkCollection_of_granted hcovers hgranted state
    refine ⟨[.narrowed r.permission candidates candidates true], ?_, ?_⟩
    · rw [List.forall_mem_singleton]
      exact .narrowed r.permission candidates
    · rw [checkOne, hrun]
  | whole hlist hgranted =>
    obtain ⟨w, hw, hleaves⟩ := hgranted
    refine ⟨w.leaves.map (.judged r.permission · true), ?_, ?_⟩
    · rw [List.forall_mem_map]
      intro leaf _
      exact .judged r.permission leaf
    · have hscalar : checkScalar s.toSubject r v state =
          ⟨.ok (), w.leaves.map (.judged r.permission · true), state⟩ := by
        rcases checkScalar_cases s.toSubject r v state with ⟨e, he, -⟩ | ⟨u, hu, hrun⟩
        · cases hw.symm.trans he
        · cases hw.symm.trans hu
          rw [hrun, askEach_of_implied hleaves]
          rfl
      rw [checkOne_of_not_list hlist, hscalar]

/-! ## Requirements in turn -/

/-- **A check of settled requirements**, in closed form. -/
theorem check_of_settled (method : String) (h : ∀ r ∈ rs, r.Settled s v) (state : σ) :
    ∃ questions, (∀ question ∈ questions, question.InFull) ∧
      check s.toSubject method rs v state = ⟨⟨.ok (), v⟩, questions, state⟩ := by
  induction rs with
  | nil => exact ⟨[], List.forall_mem_nil _, rfl⟩
  | cons r rs ih =>
    obtain ⟨hr, hrs⟩ := List.forall_mem_cons.1 h
    obtain ⟨first, hfirst, hone⟩ := checkOne_of_settled hr state
    obtain ⟨rest, hrest, hall⟩ := ih hrs
    have hok : (checkOne s.toSubject r v state).result.verdict = .ok () := by rw [hone]
    refine ⟨first ++ rest, List.forall_mem_append.2 ⟨hfirst, hrest⟩, ?_⟩
    rw [check_cons_of_ok hok, hone]
    dsimp only
    rw [hall]

/-- **What a check leaves is settled.** Requirements whose turn is over are granted on what is left
of a list later on, since only elements are taken away. -/
theorem settled_of_check (hok : (check s.toSubject method rs v state).result.verdict = .ok ()) :
    ∀ r ∈ rs, r.Settled s (check s.toSubject method rs v state).result.value := by
  intro r hr
  have hmediated := check_mediates hok
  rcases v.list_cases with ⟨items, rfl⟩ | hlist
  · obtain ⟨hcovers, -⟩ := check_list_ok_iff.1 hok
    rw [hmediated.eq_granted]
    refine .elements (hcovers r hr) ?_
    intro element helement
    have hall : ∀ r ∈ rs, r.GrantedOn s.grants element :=
      of_decide_eq_true (List.mem_filter.1 helement).2
    exact hall r hr
  · have hthroughout := check_whole_ok_iff hlist |>.1 hok
    rw [hmediated.eq_whole hlist]
    exact .whole hlist (hthroughout r hr)

/-- **A check leaves a value as it is** exactly if its requirements are settled on it. -/
theorem check_result_eq_iff : (check s.toSubject method rs v state).result = ⟨.ok (), v⟩ ↔
    ∀ r ∈ rs, r.Settled s v := by
  constructor
  · intro h
    have hok : (check s.toSubject method rs v state).result.verdict = .ok () := by rw [h]
    have hsettled := settled_of_check hok
    rwa [h] at hsettled
  · intro h
    obtain ⟨questions, -, hrun⟩ := check_of_settled method h state
    rw [hrun]

/-- **Checking again changes nothing.** Where a check succeeds, the same requirements are met by
what it leaves, at any later time and for whichever method: the value stays as it is, and so does
the state. Every question to the subject is answered in full, and nothing is logged, neither by the
guard nor by the subject. -/
theorem check_idempotent (s : PrincipalSubject) (method again : String) (rs : List Requirement)
    (v : Value) (state : σ) (later : τ)
    (hok : (check s.toSubject method rs v state).result.verdict = .ok ()) :
    let left := (check s.toSubject method rs v state).result.value
    let second := check s.toSubject again rs left later
    second.result = ⟨.ok (), left⟩ ∧ second.state = later ∧
      (∀ effect ∈ second.effects, effect.InFull) ∧
      second.effects.filterMap Effect.record? = [] := by
  dsimp only
  have hsettled := settled_of_check hok
  obtain ⟨questions, hfull, hrun⟩ := check_of_settled again hsettled later
  rw [hrun]
  exact ⟨rfl, rfl, hfull, log_of_inFull hfull⟩

/-- By county and then by unit, one of two cases is left; checked again it stays, without a
report. Of the case of the south alone nothing is left, and the empty list passes again. -/
theorem check_idempotent_sample :
    let s := PrincipalSubject.of Sample.viewer .empty
    let rs := [Sample.byCounty "cases", Sample.byUnit "cases"]
    let run (v : Value) := check s.toSubject "cases.list" rs v ()
    let south := Value.list [Sample.case "south"]
    (run Sample.cases).result.verdict = .ok () ∧ (run south).result = ⟨.ok (), .list []⟩ ∧
      (run (run Sample.cases).result.value).effects.filterMap Effect.record? = [] ∧
      (run (.list [])).result = ⟨.ok (), .list []⟩ := by
  intro s rs run south
  have hcases : (run Sample.cases).result.verdict = .ok () := rfl
  have hsouth : (run south).result = ⟨.ok (), .list []⟩ := rfl
  obtain ⟨-, -, -, hlog⟩ :=
    check_idempotent s "cases.list" "cases.list" rs Sample.cases () () hcases
  obtain ⟨hempty, -⟩ := check_idempotent s "cases.list" "cases.list" rs south () () rfl
  exact ⟨hcases, hsouth, hlog, hempty⟩

end AccessGuard
