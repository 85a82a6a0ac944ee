import AccessGuard.Guard.Invoke
import AccessGuard.Proofs.Collection

/-!
# The stages of a call, step by step

What a step of a check or of a call can do, one equation for each way it can go. Everything that
is said about whole checks and whole calls is an induction over these equations.

* `check_cons_of_ok`, `check_cons_of_error`: one requirement of several.
* `argument_cases`: an argument is not there, is nothing to check, or is a value.
* `Guard.invoke_of_ok`, `Guard.invoke_of_error`: a call passes its first stage (`Guard.opening`)
  or ends with it.
-/

namespace AccessGuard

variable {τ ε : Type} {subject : Subject τ} {method : String} {state : τ}

/-! ## One requirement -/

/-- A value that is no list is left as it is. -/
theorem checkOne_of_not_list {r : Requirement} {v : Value} (hv : v.isList = false) :
    checkOne subject r v state =
      let run := checkScalar subject r v state
      { run with result := ⟨run.result, v⟩ } := by
  cases v <;> first | rfl | cases hv

/-- A selector fails, or the leaves that it leads to are asked about in turn. -/
theorem checkScalar_cases (subject : Subject τ) (r : Requirement) (v : Value) (state : τ) :
    (∃ e, r.selector.resolve v = .error e ∧
      checkScalar subject r v state = ⟨.error (.evaluation e), [], state⟩) ∨
    ∃ w, r.selector.resolve v = .ok w ∧
      checkScalar subject r v state =
        let answers := askEach subject r.permission w.leaves state
        { answers with result := answers.result.mapError .denied } := by
  unfold checkScalar Selector.evaluate
  rw [Selector.resolveIn_bind]
  cases h : r.selector.resolve v with
  | error e => left; exact ⟨e, rfl, rfl⟩
  | ok w => right; exact ⟨w, rfl, rfl⟩

/-! ## Requirements in turn -/

section Requirements

variable {r : Requirement} {rs : List Requirement} {v : Value}

theorem check_cons_of_error {e : GuardError}
    (h : (checkOne subject r v state).result.verdict = .error e) :
    check subject method (r :: rs) v state =
      { checkOne subject r v state with
        effects := (checkOne subject r v state).effects ++
          [.logged (.checkFailed method r.permission.text e)] } := by
  rw [check]; simp only [h]

theorem check_cons_of_ok (h : (checkOne subject r v state).result.verdict = .ok ()) :
    check subject method (r :: rs) v state =
      let first := checkOne subject r v state
      let rest := check subject method rs first.result.value first.state
      { rest with effects := first.effects ++ rest.effects } := by
  rw [check]; simp only [h]

/-- After the only requirement nothing is left to check. -/
theorem check_singleton (subject : Subject τ) (method : String) (r : Requirement) (v : Value)
    (state : τ) :
    (check subject method [r] v state).result = (checkOne subject r v state).result := by
  cases h : (checkOne subject r v state).result.verdict with
  | error e => rw [check_cons_of_error h]
  | ok _ =>
    rw [check_cons_of_ok h]
    dsimp only [check]
    rw [← h]

end Requirements

/-! ## Arguments in turn -/

/-- The value of an argument; one that is absent or not there at all is null. -/
def argumentAt (arguments : Arguments) (i : Nat) : Value := (arguments[i]?.getD none).getD .null

theorem argumentAt_of_getElem? {arguments : Arguments} {i : Nat} {v : Value}
    (h : arguments[i]? = some (some v)) : argumentAt arguments i = v := by
  unfold argumentAt; rw [h]; rfl

/-- **What a position can hold.** -/
theorem argument_cases (arguments : Arguments) (i : Nat) :
    arguments.length ≤ i ∨ (i < arguments.length ∧ (argumentAt arguments i).isNull = true) ∨
      ∃ v, arguments[i]? = some (some v) ∧ v.isNull = false := by
  rcases Nat.lt_or_ge i arguments.length with hi | hi
  · right
    cases ha : arguments[i]? with
    | none => rw [List.getElem?_eq_none_iff] at ha; omega
    | some a =>
      cases a with
      | none => left; exact ⟨hi, by unfold argumentAt; rw [ha]; rfl⟩
      | some v =>
        cases hn : v.isNull with
        | true => left; exact ⟨hi, by rw [argumentAt_of_getElem? ha]; exact hn⟩
        | false => right; exact ⟨v, rfl, hn⟩
  · exact .inl hi

section Arguments

variable {p : ParameterPolicy} {ps qs : List ParameterPolicy} {arguments : Arguments} {v : Value}

theorem checkArguments_missing (h : arguments.length ≤ p.index) :
    checkArguments subject method (p :: ps) arguments state =
      ⟨(.error (.missingArgument method p.index arguments.length), arguments), [], state⟩ := by
  rw [checkArguments, List.getElem?_eq_none h]

theorem checkArguments_null (hi : p.index < arguments.length)
    (hn : (argumentAt arguments p.index).isNull = true) :
    checkArguments subject method (p :: ps) arguments state =
      checkArguments subject method ps arguments state := by
  rw [checkArguments]
  unfold argumentAt at hn
  cases ha : arguments[p.index]? with
  | none => rw [List.getElem?_eq_none_iff] at ha; omega
  | some a =>
    cases a with
    | none => rfl
    | some v =>
      rw [ha] at hn
      simp only [Option.getD_some] at hn
      simp only [hn, if_true]

theorem checkArguments_of_error {e : GuardError} (hv : arguments[p.index]? = some (some v))
    (hn : v.isNull = false)
    (h : (check subject method p.requirements v state).result.verdict = .error e) :
    checkArguments subject method (p :: ps) arguments state =
      let first := check subject method p.requirements v state
      ⟨(.error e, arguments.set p.index (some first.result.value)), first.effects,
        first.state⟩ := by
  rw [checkArguments]
  simp only [hv, hn, Bool.false_eq_true, if_false, h]

theorem checkArguments_of_ok (hv : arguments[p.index]? = some (some v)) (hn : v.isNull = false)
    (h : (check subject method p.requirements v state).result.verdict = .ok ()) :
    checkArguments subject method (p :: ps) arguments state =
      let first := check subject method p.requirements v state
      let rest := checkArguments subject method ps
        (arguments.set p.index (some first.result.value)) first.state
      { rest with effects := first.effects ++ rest.effects } := by
  rw [checkArguments]
  simp only [hv, hn, Bool.false_eq_true, if_false, h]

/-- The first part of the parameters fails: those after it are not looked at. -/
theorem checkArguments_append_of_error {e : GuardError}
    (h : (checkArguments subject method ps arguments state).result.1 = .error e) :
    checkArguments subject method (ps ++ qs) arguments state =
      checkArguments subject method ps arguments state := by
  induction ps generalizing arguments state with
  | nil => cases h
  | cons p ps ih =>
    rw [List.cons_append]
    rcases argument_cases arguments p.index with hi | ⟨hi, hn⟩ | ⟨v, hv, hn⟩
    · rw [checkArguments_missing hi, checkArguments_missing hi]
    · rw [checkArguments_null hi hn] at h
      rw [checkArguments_null hi hn, checkArguments_null hi hn, ih h]
    · cases hc : (check subject method p.requirements v state).result.verdict with
      | error _ => rw [checkArguments_of_error hv hn hc, checkArguments_of_error hv hn hc]
      | ok _ =>
        rw [checkArguments_of_ok hv hn hc] at h
        rw [checkArguments_of_ok hv hn hc, checkArguments_of_ok hv hn hc]
        dsimp only
        rw [ih h]

end Arguments

/-! ## The operation and its result -/

section Result

variable {rs : List Requirement} {operation : GuardedOperation τ ε} {arguments : Arguments}

/-- All of a call from the start of the operation on. -/
def closing (subject : Subject τ) (method : String) (rs : List Requirement)
    (operation : GuardedOperation τ ε) (arguments : Arguments) (state : τ) : Run τ (Invoked ε) :=
  checkResult subject method rs (runOperation operation arguments state)

/-- What the check of a result makes of it. -/
def Checked.delivered (checked : Checked Value) : Except (InvocationError ε) (Option Value) :=
  match checked.verdict with
  | .ok _ => .ok (some checked.value)
  | .error e => .error (.guard e)

/-- **The ends of a call that has run its operation**: the operation failed, or there is nothing
to check, or its result is checked. Without requirements a result is checked as well: checking
nothing changes nothing. -/
theorem closing_cases (subject : Subject τ) (method : String) (rs : List Requirement)
    (operation : GuardedOperation τ ε) (arguments : Arguments) (state : τ) :
    let left := operation arguments state
    let run := closing subject method rs operation arguments state
    (∃ e, left.result = .error e ∧
      run = ⟨⟨.error (.operation e), left.arguments⟩, [.started arguments], left.state⟩) ∨
    (∃ value, left.result = .ok value ∧ (value.getD .null).isNull = true ∧
      run = ⟨⟨.ok value, left.arguments⟩, [.started arguments], left.state⟩) ∨
    ∃ v, left.result = .ok (some v) ∧ v.isNull = false ∧
      let last := check subject method rs v left.state
      run = ⟨⟨last.result.delivered, left.arguments⟩, .started arguments :: last.effects,
        last.state⟩ := by
  unfold closing runOperation checkResult
  dsimp only
  obtain ⟨result, arguments', state'⟩ := operation arguments state
  cases result with
  | error e => left; exact ⟨e, rfl, rfl⟩
  | ok value =>
    right
    cases value with
    | none => left; exact ⟨none, rfl, rfl, rfl⟩
    | some v =>
      cases hn : v.isNull with
      | true =>
        left
        refine ⟨some v, rfl, hn, ?_⟩
        show (if v.isNull || rs.isEmpty then _ else _) = _
        rw [hn, Bool.true_or, if_pos rfl]; rfl
      | false =>
        right
        refine ⟨v, rfl, hn, ?_⟩
        show (if v.isNull || rs.isEmpty then _ else _) = _
        rw [hn, Bool.false_or]
        -- without requirements the guard does not check at all
        cases rs with
        | nil => rfl
        | cons r rs => rfl

@[simp] theorem closing_nil :
    closing subject method [] operation arguments state =
      runOperation operation arguments state := by
  unfold closing checkResult
  split
  · rw [List.isEmpty_nil, Bool.or_true, if_pos rfl]
  · rfl

/-- **The arguments are left as the operation left them.** -/
theorem closing_arguments :
    (closing subject method rs operation arguments state).result.arguments =
      (operation arguments state).arguments := by
  rcases closing_cases subject method rs operation arguments state with
    ⟨e, -, he⟩ | ⟨value, -, -, he⟩ | ⟨v, -, -, he⟩ <;> rw [he]

end Result

/-! ## Starts of the operation -/

/-- The arguments with which an operation was started, start by start. -/
def starts (effects : List Effect) : List Arguments := effects.filterMap Effect.started?

@[simp] theorem starts_append (es fs : List Effect) : starts (es ++ fs) = starts es ++ starts fs :=
  List.filterMap_append

theorem mem_starts {effects : List Effect} {arguments : Arguments} :
    arguments ∈ starts effects ↔ .started arguments ∈ effects := by
  unfold starts
  rw [List.mem_filterMap]
  constructor
  · rintro ⟨e, he, hs⟩
    cases e <;> cases hs
    exact he
  · intro h
    exact ⟨_, h, rfl⟩

theorem starts_noticed (notices : List Notice) : starts (notices.map .noticed) = [] := by
  induction notices with
  | nil => rfl
  | cons n ns ih => exact ih

theorem starts_logged (events : List GuardEvent) : starts (events.map .logged) = [] := by
  induction events with
  | nil => rfl
  | cons e es ih => exact ih

theorem starts_checkCollection (r : Requirement) (items : List Value) :
    starts (checkCollection subject r items state).effects = [] := by
  rcases checkCollection_cases subject r state items with
    ⟨e, -, he⟩ | ⟨candidates, -, ⟨d, -, he⟩ | ⟨-, events, he⟩⟩ <;> rw [he] <;> dsimp only
  · rfl
  · unfold askEffects
    rw [starts_append, starts_noticed]; rfl
  · unfold askEffects
    rw [starts_append, starts_append, starts_noticed, starts_logged]; rfl

theorem starts_askEach (p : Permission) (vs : List Value) :
    starts (askEach subject p vs state).effects = [] := by
  induction vs generalizing state with
  | nil => rfl
  | cons v vs ih =>
    rw [askEach]
    split
    · rw [starts_append, starts_noticed]; rfl
    · rw [starts_append, starts_append, starts_noticed, ih]; rfl

theorem starts_checkOne (r : Requirement) (v : Value) :
    starts (checkOne subject r v state).effects = [] := by
  rcases v.list_cases with ⟨items, rfl⟩ | hv
  · exact starts_checkCollection ..
  · rw [checkOne_of_not_list hv]
    rcases checkScalar_cases subject r v state with ⟨e, -, he⟩ | ⟨w, -, he⟩
    · rw [he]; rfl
    · rw [he]; exact starts_askEach ..

/-- **A check does not start the operation.** -/
theorem starts_check (rs : List Requirement) (v : Value) :
    starts (check subject method rs v state).effects = [] := by
  induction rs generalizing v state with
  | nil => rfl
  | cons r rs ih =>
    cases h : (checkOne subject r v state).result.verdict with
    | error e => rw [check_cons_of_error h, starts_append, starts_checkOne]; rfl
    | ok _ => rw [check_cons_of_ok h]; dsimp only; rw [starts_append, starts_checkOne, ih]; rfl

theorem starts_checkArguments (ps : List ParameterPolicy) (arguments : Arguments) :
    starts (checkArguments subject method ps arguments state).effects = [] := by
  induction ps generalizing arguments state with
  | nil => rfl
  | cons p ps ih =>
    rcases argument_cases arguments p.index with hi | ⟨hi, hn⟩ | ⟨v, hv, hn⟩
    · rw [checkArguments_missing hi]; rfl
    · rw [checkArguments_null hi hn, ih]
    · cases hc : (check subject method p.requirements v state).result.verdict with
      | error _ => rw [checkArguments_of_error hv hn hc]; exact starts_check ..
      | ok _ =>
        rw [checkArguments_of_ok hv hn hc]
        dsimp only
        rw [starts_append, starts_check, ih]; rfl

theorem starts_closing (rs : List Requirement) (operation : GuardedOperation τ ε)
    (arguments : Arguments) :
    starts (closing subject method rs operation arguments state).effects = [arguments] := by
  rcases closing_cases subject method rs operation arguments state with
    ⟨e, -, he⟩ | ⟨value, -, -, he⟩ | ⟨v, -, -, he⟩ <;> rw [he]
  · rfl
  · rfl
  · exact congrArg (arguments :: ·) (starts_check rs v)

/-! ## Whole calls -/

namespace Guard

variable {σ : Type} {g : Guard} {subject : Subject (World σ)} {arguments : Arguments}
  {operation : GuardedOperation (World σ) ε} {world : World σ} {policy : MethodPolicy}

/-- All of a call that happens before the operation: the checks of the arguments, if
enforcement is on and the method is registered. -/
def opening (g : Guard) (subject : Subject (World σ)) (method : String) (arguments : Arguments)
    (world : World σ) : Run (World σ) (Except GuardError Unit × Arguments) :=
  if g.isEnabled world.switches then
    match g.registry.get? method with
    | some policy => checkArguments subject method policy.parameters.values arguments world
    | none => ⟨(.ok (), arguments), [], world⟩
  else ⟨(.ok (), arguments), [.logged (.bypassed method)], world⟩

/-- What a call that begins in this world requires of the result. -/
def resultRequirements (g : Guard) (method : String) (world : World σ) : List Requirement :=
  if g.isEnabled world.switches then
    match g.registry.get? method with
    | some policy => policy.returns
    | none => []
  else []

theorem opening_registered (on : g.isEnabled world.switches = true)
    (hm : g.registry.get? method = some policy) :
    g.opening subject method arguments world =
      checkArguments subject method policy.parameters.values arguments world := by
  unfold opening; rw [if_pos on, hm]

theorem resultRequirements_registered (on : g.isEnabled world.switches = true)
    (hm : g.registry.get? method = some policy) :
    g.resultRequirements method world = policy.returns := by
  unfold resultRequirements; rw [if_pos on, hm]

theorem invoke_registered (on : g.isEnabled world.switches = true)
    (hm : g.registry.get? method = some policy) :
    g.invoke subject method arguments operation world =
      invokeChecked subject method policy arguments operation world := by
  unfold invoke; rw [if_pos on, hm]

theorem starts_opening : starts (g.opening subject method arguments world).effects = [] := by
  unfold opening
  split
  · split
    · exact starts_checkArguments ..
    · rfl
  · rfl

/-- Only a method that is checked can fail before the operation. -/
theorem registered_of_error {e : GuardError}
    (h : (g.opening subject method arguments world).result.1 = .error e) :
    g.isEnabled world.switches = true ∧ ∃ policy, g.registry.get? method = some policy := by
  unfold opening at h
  split at h
  · rename_i on
    split at h
    · rename_i policy hm
      exact ⟨on, policy, hm⟩
    · cases h
  · cases h

/-- **A call that fails before the operation** ends with what its first stage left. -/
theorem invoke_of_error {e : GuardError}
    (h : (g.opening subject method arguments world).result.1 = .error e) :
    g.invoke subject method arguments operation world =
      let opening := g.opening subject method arguments world
      ⟨⟨.error (.guard e), opening.result.2⟩, opening.effects, opening.state⟩ := by
  obtain ⟨on, policy, hm⟩ := registered_of_error h
  rw [opening_registered on hm] at h ⊢
  rw [invoke_registered on hm]
  unfold invokeChecked
  generalize checkArguments subject method policy.parameters.values arguments world = before
    at h ⊢
  obtain ⟨⟨verdict, arguments⟩, effects, state⟩ := before
  obtain rfl : verdict = .error e := h
  rfl

/-- **A call that passes its first stage** runs the operation once and checks its result. -/
theorem invoke_of_ok (h : (g.opening subject method arguments world).result.1 = .ok ()) :
    g.invoke subject method arguments operation world =
      let opening := g.opening subject method arguments world
      let after := closing subject method (g.resultRequirements method world) operation
        opening.result.2 opening.state
      { after with effects := opening.effects ++ after.effects } := by
  by_cases on : g.isEnabled world.switches = true
  · cases hm : g.registry.get? method with
    | none =>
      -- nothing is declared: the first stage is empty and so are the requirements
      unfold invoke opening resultRequirements
      rw [if_pos on, if_pos on, if_pos on, hm]
      dsimp only
      rw [closing_nil]; rfl
    | some policy =>
      rw [opening_registered on hm] at h ⊢
      rw [resultRequirements_registered on hm, invoke_registered on hm]
      unfold invokeChecked
      generalize checkArguments subject method policy.parameters.values arguments world = before
        at h ⊢
      obtain ⟨⟨verdict, arguments⟩, effects, state⟩ := before
      obtain rfl : verdict = .ok () := h
      rfl
  · unfold invoke opening resultRequirements
    rw [if_neg on, if_neg on, if_neg on]
    dsimp only
    rw [closing_nil]; rfl

theorem starts_invoke_of_error {e : GuardError}
    (h : (g.opening subject method arguments world).result.1 = .error e) :
    starts (g.invoke subject method arguments operation world).effects = [] := by
  rw [invoke_of_error h]
  exact starts_opening

theorem starts_invoke_of_ok (h : (g.opening subject method arguments world).result.1 = .ok ()) :
    starts (g.invoke subject method arguments operation world).effects =
      [(g.opening subject method arguments world).result.2] := by
  rw [invoke_of_ok h]
  dsimp only
  rw [starts_append, starts_opening, starts_closing]
  rfl

/-- **The operation is started exactly when the first stage passes**, with the arguments that
the stage left. -/
theorem started_iff {seen : Arguments} :
    .started seen ∈ (g.invoke subject method arguments operation world).effects ↔
      (g.opening subject method arguments world).result.1 = .ok () ∧
        seen = (g.opening subject method arguments world).result.2 := by
  rw [← mem_starts]
  cases h : (g.opening subject method arguments world).result.1 with
  | error e => rw [starts_invoke_of_error h]; simp
  | ok _ => rw [starts_invoke_of_ok h, List.mem_singleton]; simp

end Guard

/-! ## A sample -/

namespace Sample

/-- Cases may be viewed county by county. -/
def byCounty (binding : String) : Requirement :=
  ⟨⟨"case", "view", binding, ".county"⟩, ⟨binding, [.field "county"]⟩⟩

/-- Cases are viewed before and after the operation. -/
def policy : MethodPolicy :=
  ⟨⟨[(0, ⟨0, "cases", [byCounty "cases"]⟩)], by decide⟩, [byCounty "r"], by decide⟩

/-- A guard of one method, whose only parameter and whose result are narrowed by county. -/
def guard : Guard := ⟨⟨⟨[("cases.list", policy)], by decide⟩⟩, ⟨0⟩⟩

/-- Enforcement is on. -/
def world : World Unit := ⟨⟨[true]⟩, ()⟩

/-- A case of a county. -/
def case (county : String) : Value := .record [("county", .str county)]

/-- The cases of two counties, and an argument that is absent. -/
def arguments : Arguments := [some (.list [case "north", case "south"]), none]

/-- Returns its first argument. -/
def first : GuardedOperation (World Unit) String := fun arguments world =>
  ⟨.ok (arguments[0]?.getD none), arguments, world⟩

end Sample

end AccessGuard
