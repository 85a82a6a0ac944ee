import AccessGuard.Proofs.Narrowing

/-!
# Why a check fails

A requirement fails on a value because the subject refuses it or because its selector leads
nowhere, from an element of a list or from any other value itself. Requirements before it only
narrow the value, so the failure of several requirements is the failure of one of them on the
value that was given. That an identifier is not bound is never the reason: a check binds what it
checks under the identifier of the selector.

* `Selector.resolve_ne_unbound`: where a selector leads nowhere, its identifier is bound.
* `check_fails`: the ways in which requirements fail.
* `Guard.invoke_fails`: the ways in which a guard ends a call.
-/

namespace AccessGuard

/-! ## Selectors that lead nowhere -/

namespace Value

mutual

theorem project_ne_unbound (name binding : String) :
    ∀ v : Value, v.project name ≠ .error (.unbound binding)
  | record fields => by
    rw [project]
    cases fields.lookup name <;> nofun
  | list items => by
    rw [project]
    have hitems := projectAll_ne_unbound name binding items
    cases h : projectAll name items with
    | error fault =>
      intro he
      cases he
      exact hitems h
    | ok ws => nofun
  | null | bool _ | int _ | decimal _ | str _ => nofun

theorem projectAll_ne_unbound (name binding : String) :
    ∀ vs : List Value, projectAll name vs ≠ .error (.unbound binding)
  | [] => nofun
  | v :: vs => by
    rw [projectAll]
    have hv := project_ne_unbound name binding v
    have hvs := projectAll_ne_unbound name binding vs
    cases h : v.project name with
    | error fault =>
      intro he
      cases he
      exact hv h
    | ok w =>
      cases h : projectAll name vs with
      | error fault =>
        intro he
        cases he
        exact hvs h
      | ok ws => nofun

end

end Value

theorem Step.apply_ne_unbound (s : Step) (v : Value) (binding : String) :
    s.apply v ≠ .error (.unbound binding) := by
  cases s with
  | field name => exact v.project_ne_unbound name binding
  | spread name =>
    rw [apply]
    split
    · exact v.project_ne_unbound name binding
    · nofun
  | flatten =>
    rw [apply]
    split <;> nofun

theorem Step.applyAll_ne_unbound (steps : List Step) (v : Value) (binding : String) :
    applyAll steps v ≠ .error (.unbound binding) := by
  induction steps generalizing v with
  | nil => nofun
  | cons s steps ih =>
    rw [applyAll]
    cases h : s.apply v with
    | error fault =>
      intro he
      cases he
      exact s.apply_ne_unbound v binding h
    | ok w => exact ih w

/-- **No step looks for an identifier.** -/
theorem Selector.resolve_ne_unbound (s : Selector) (v : Value) (text binding : String) :
    s.resolve v ≠ .error ⟨text, .unbound binding⟩ := by
  unfold resolve
  cases h : Step.applyAll s.steps v with
  | error fault =>
    intro he
    cases he
    exact Step.applyAll_ne_unbound s.steps v binding h
  | ok w => nofun

/-! ## One requirement -/

variable {τ ε : Type} {subject : Subject τ} {method : String} {state : τ}

/-- **How a requirement fails on a value.** -/
inductive Requirement.FailsOn (subject : Subject τ) (r : Requirement) : Value → GuardError → Prop
    where
  | candidates {items : List Value} {d : Denial} (projected : CandidateSet) (state : τ) :
      (subject.narrow r.permission projected state).verdict = .error d →
      FailsOn subject r (.list items) (.denied d)
  | element {items : List Value} {u : Value} {e : EvaluationError} : u ∈ items →
      r.selector.resolve u = .error e → FailsOn subject r (.list items) (.evaluation e)
  | leaf {v : Value} {d : Denial} (u : Value) (state : τ) : v.isList = false →
      (subject.judge r.permission u state).verdict = .error d → FailsOn subject r v (.denied d)
  | value {v : Value} {e : EvaluationError} : v.isList = false →
      r.selector.resolve v = .error e → FailsOn subject r v (.evaluation e)

namespace Requirement.FailsOn

variable {r : Requirement} {v w : Value} {e : GuardError}

/-- What fails on a narrowed value fails on the value before. -/
theorem of_narrowed (h : FailsOn subject r w e) (hw : NarrowsTo v w) : FailsOn subject r v e := by
  cases hw with
  | same => exact h
  | fewer hsub =>
    cases h with
    | candidates projected state hd => exact .candidates projected state hd
    | element hu he => exact .element (hsub.subset hu) he
    | leaf _ _ hlist _ => cases hlist
    | value hlist _ => cases hlist

theorem ne_unbound (h : FailsOn subject r v e) (text binding : String) :
    e ≠ .evaluation ⟨text, .unbound binding⟩ := by
  rintro rfl
  cases h with
  | element _ he => exact r.selector.resolve_ne_unbound _ text binding he
  | value _ he => exact r.selector.resolve_ne_unbound _ text binding he

end Requirement.FailsOn

theorem askEach_fails {p : Permission} {vs : List Value} {d : Denial}
    (h : (askEach subject p vs state).result = .error d) :
    ∃ u at_, (subject.judge p u at_).verdict = .error d := by
  induction vs generalizing state with
  | nil => cases h
  | cons v vs ih =>
    rw [askEach] at h
    cases hv : (subject.judge p v state).verdict with
    | error d' =>
      simp only [hv] at h
      cases h
      exact ⟨v, state, hv⟩
    | ok _ =>
      simp only [hv] at h
      exact ih h

theorem checkOne_fails {r : Requirement} {v : Value} {e : GuardError}
    (h : (checkOne subject r v state).result.verdict = .error e) : r.FailsOn subject v e := by
  rcases v.list_cases with ⟨items, rfl⟩ | hv
  · rw [checkOne] at h
    rcases checkCollection_cases subject r state items with
      ⟨x, hp, he⟩ | ⟨candidates, -, ⟨d, hd, he⟩ | ⟨-, events, he⟩⟩
    · rw [he] at h
      cases h
      obtain ⟨u, hu, hx⟩ := Selector.resolves_of_project_error hp
      exact .element hu hx
    · rw [he] at h
      cases h
      exact .candidates candidates state hd
    · rw [he] at h
      cases h
  · rw [checkOne_of_not_list hv] at h
    rcases checkScalar_cases subject r v state with ⟨x, hx, he⟩ | ⟨w, -, he⟩
    · rw [he] at h
      cases h
      exact .value hv hx
    · rw [he] at h
      dsimp only at h
      cases hask : (askEach subject r.permission w.leaves state).result with
      | ok _ => rw [hask] at h; cases h
      | error d =>
        rw [hask] at h
        cases h
        obtain ⟨u, at_, hd⟩ := askEach_fails hask
        exact .leaf u at_ hv hd

/-! ## Several requirements -/

/-- **Requirements fail in turn**: one of them fails on the value that was given. -/
theorem check_fails {rs : List Requirement} {v : Value} {e : GuardError}
    (h : (check subject method rs v state).result.verdict = .error e) :
    ∃ r ∈ rs, r.FailsOn subject v e := by
  induction rs generalizing v state with
  | nil => cases h
  | cons r rs ih =>
    cases hr : (checkOne subject r v state).result.verdict with
    | error e' =>
      rw [check_cons_of_error hr] at h
      exact ⟨r, List.mem_cons_self, checkOne_fails h⟩
    | ok _ =>
      -- the others see what the first one left of the value
      rw [check_cons_of_ok hr] at h
      obtain ⟨r', hr', hfails⟩ := ih h
      exact ⟨r', List.mem_cons_of_mem r hr', hfails.of_narrowed (checkOne_narrows r v)⟩

theorem checkArguments_fails {ps : List ParameterPolicy} {arguments : Arguments}
    {e : GuardError}
    (h : (checkArguments subject method ps arguments state).result.1 = .error e) :
    (∃ i n, e = .missingArgument method i n) ∨
      ∃ p ∈ ps, ∃ r ∈ p.requirements, ∃ v, r.FailsOn subject v e := by
  induction ps generalizing arguments state with
  | nil => cases h
  | cons p ps ih =>
    have later {arguments : Arguments} {state : τ}
        (h : (checkArguments subject method ps arguments state).result.1 = .error e) :
        (∃ i n, e = .missingArgument method i n) ∨
          ∃ q ∈ p :: ps, ∃ r ∈ q.requirements, ∃ v, r.FailsOn subject v e := by
      refine (ih h).imp_right ?_
      rintro ⟨q, hq, hfails⟩
      exact ⟨q, List.mem_cons_of_mem _ hq, hfails⟩
    rcases argument_cases arguments p.index with hi | ⟨hi, hn⟩ | ⟨v, hv, hn⟩
    · rw [checkArguments_missing hi] at h
      cases h
      exact .inl ⟨p.index, _, rfl⟩
    · rw [checkArguments_null hi hn] at h
      exact later h
    · cases hc : (check subject method p.requirements v state).result.verdict with
      | error e' =>
        rw [checkArguments_of_error hv hn hc] at h
        cases h
        obtain ⟨r, hr, hfails⟩ := check_fails hc
        exact .inr ⟨p, List.mem_cons_self, r, hr, v, hfails⟩
      | ok _ =>
        rw [checkArguments_of_ok hv hn hc] at h
        exact later h

/-! ## Whole calls -/

section Calls

variable {σ : Type} {g : Guard} {subject : Subject (World σ)} {arguments : Arguments}
  {operation : GuardedOperation (World σ) ε} {world : World σ}

namespace Guard

theorem registered_of_resultRequirement {r : Requirement}
    (h : r ∈ g.resultRequirements method world) :
    ∃ policy, g.registry.get? method = some policy ∧ r ∈ policy.returns := by
  unfold resultRequirements at h
  split at h
  · split at h
    · rename_i policy hm
      exact ⟨policy, hm, h⟩
    · cases h
  · cases h

/-- **A guard ends a call** because an argument is missing, or because a requirement of the method
fails on an argument or on the result. -/
theorem invoke_fails {e : GuardError}
    (h : (g.invoke subject method arguments operation world).result.result = .error (.guard e)) :
    (∃ i n, e = .missingArgument method i n) ∨ ∃ policy, g.registry.get? method = some policy ∧
      ((∃ p ∈ policy.parameters.values, ∃ r ∈ p.requirements, ∃ v, r.FailsOn subject v e) ∨
        ∃ r ∈ policy.returns, ∃ v, r.FailsOn subject v e) := by
  cases hopening : (g.opening subject method arguments world).result.1 with
  | error e' =>
    rw [invoke_of_error hopening] at h
    cases h
    obtain ⟨on, policy, hm⟩ := registered_of_error hopening
    rw [opening_registered on hm] at hopening
    refine (checkArguments_fails hopening).imp_right ?_
    rintro ⟨p, hp, hfails⟩
    exact ⟨policy, hm, .inl ⟨p, hp, hfails⟩⟩
  | ok _ =>
    rw [invoke_of_ok hopening] at h
    dsimp only at h
    rcases closing_cases subject method (g.resultRequirements method world) operation
      (g.opening subject method arguments world).result.2
      (g.opening subject method arguments world).state with
      ⟨e', -, he⟩ | ⟨value, -, -, he⟩ | ⟨v, -, -, he⟩ <;> rw [he] at h
    · cases h
    · cases h
    · right
      unfold Checked.delivered at h
      dsimp only at h
      generalize operation _ _ = left at h
      cases hc : (check subject method (g.resultRequirements method world) v
          left.state).result.verdict with
      | ok _ => rw [hc] at h; cases h
      | error e' =>
        rw [hc] at h
        cases h
        obtain ⟨r, hr, hfails⟩ := check_fails hc
        obtain ⟨policy, hm, hmem⟩ := registered_of_resultRequirement hr
        exact ⟨policy, hm, .inr ⟨r, hmem, v, hfails⟩⟩

end Guard

end Calls

end AccessGuard
