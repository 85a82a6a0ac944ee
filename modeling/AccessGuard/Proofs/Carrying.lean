import AccessGuard.Proofs.Stages

/-!
# Subjects that know less of the state

A subject may be given a state of which it knows a part only: it answers as another subject does
that has this part alone, and it leaves the rest as it is. Then a check, and a call whose
operation knows no more, are those of the other subject. The rest of the state is carried along
and has no part in what is answered.

* `Subject.Carries`, `GuardedOperation.Carries`: subjects and operations act as others do in a
  part of the state.
* `check_carries`, `invokeChecked_carries`: checks and calls do so too.
* `SetsNoFlag`, `Detached`: of the world, a subject or an operation changes its own part alone, or
  knows no other.
-/

namespace AccessGuard

variable {σ τ ε : Type}

/-! ## The same answer in a larger state -/

/-- The same answer with the state in a larger one. -/
def Judgement.map (embed : σ → τ) (j : Judgement σ) : Judgement τ :=
  ⟨j.verdict, j.notices, embed j.state⟩

/-- The same answer with the state in a larger one. -/
def Narrowing.map (embed : σ → τ) (n : Narrowing σ) : Narrowing τ :=
  ⟨n.verdict, n.left, n.notices, embed n.state⟩

/-- The same run with the state in a larger one. -/
def Run.map {α : Type} (embed : σ → τ) (run : Run σ α) : Run τ α :=
  ⟨run.result, run.effects, embed run.state⟩

/-- The same end of an operation with the state in a larger one. -/
def OperationRun.map (embed : σ → τ) (run : OperationRun σ ε) : OperationRun τ ε :=
  ⟨run.result, run.arguments, embed run.state⟩

/-- **Whatever the rest of the state is**, the outer subject answers as the inner one does. -/
structure Subject.Carries (embed : σ → τ) (inner : Subject σ) (outer : Subject τ) : Prop where
  judge : ∀ p v a, outer.judge p v (embed a) = (inner.judge p v a).map embed
  narrow : ∀ p cs a, outer.narrow p cs (embed a) = (inner.narrow p cs a).map embed

/-- So does an operation. -/
def GuardedOperation.Carries (embed : σ → τ) (inner : GuardedOperation σ ε)
    (outer : GuardedOperation τ ε) : Prop :=
  ∀ arguments a, outer arguments (embed a) = (inner arguments a).map embed

variable {embed : σ → τ} {inner : Subject σ} {outer : Subject τ} {method : String}

theorem askEach_carries (h : Subject.Carries embed inner outer) (p : Permission)
    (vs : List Value) (a : σ) :
    askEach outer p vs (embed a) = (askEach inner p vs a).map embed := by
  induction vs generalizing a with
  | nil => rfl
  | cons v vs ih =>
    rw [askEach, askEach, h.judge]
    cases hv : (inner.judge p v a).verdict with
    | error d => simp only [Judgement.map, hv, Run.map]
    | ok _ =>
      simp only [Judgement.map, hv]
      rw [ih]
      rfl

theorem checkScalar_carries (h : Subject.Carries embed inner outer) (r : Requirement) (v : Value)
    (a : σ) : checkScalar outer r v (embed a) = (checkScalar inner r v a).map embed := by
  unfold checkScalar
  cases r.selector.evaluate (r.selector.bind v) with
  | error e => rfl
  | ok vs =>
    dsimp only
    rw [askEach_carries h]
    rfl

theorem checkCollection_carries (h : Subject.Carries embed inner outer) (r : Requirement)
    (items : List Value) (a : σ) :
    checkCollection outer r items (embed a) = (checkCollection inner r items a).map embed := by
  have hasked (candidates : CandidateSet) :
      askEffects outer r.permission candidates (embed a) =
        askEffects inner r.permission candidates a := by
    unfold askEffects
    rw [h.narrow]
    rfl
  cases hp : r.selector.project items with
  | error e =>
    rw [checkCollection_of_unprojected inner r a hp,
      checkCollection_of_unprojected outer r (embed a) hp]
    rfl
  | ok candidates =>
    have hnarrow := h.narrow r.permission candidates a
    have hverdict := congrArg Narrowing.verdict hnarrow
    cases hv : (inner.narrow r.permission candidates a).verdict with
    | error d =>
      rw [checkCollection_of_refused inner r a hp hv,
        checkCollection_of_refused outer r (embed a) hp (hverdict.trans hv), hasked, hnarrow]
      rfl
    | ok _ =>
      rw [checkCollection_of_agreed inner r a hp hv,
        checkCollection_of_agreed outer r (embed a) hp (hverdict.trans hv), hasked, hnarrow]
      rfl

theorem checkOne_carries (h : Subject.Carries embed inner outer) (r : Requirement) (v : Value)
    (a : σ) : checkOne outer r v (embed a) = (checkOne inner r v a).map embed := by
  rcases v.list_cases with ⟨items, rfl⟩ | hlist
  · rw [checkOne, checkOne, checkCollection_carries h]
    rfl
  · rw [checkOne_of_not_list hlist, checkOne_of_not_list hlist, checkScalar_carries h]
    rfl

/-- **Requirements in turn** carry the rest of the state along. -/
theorem check_carries (h : Subject.Carries embed inner outer) (method : String)
    (rs : List Requirement) (v : Value) (a : σ) :
    check outer method rs v (embed a) = (check inner method rs v a).map embed := by
  induction rs generalizing v a with
  | nil => rfl
  | cons r rs ih =>
    have hfirst := checkOne_carries h r v a
    have hverdict := congrArg (fun run => run.result.verdict) hfirst
    cases hv : (checkOne inner r v a).result.verdict with
    | error e =>
      rw [check_cons_of_error hv, check_cons_of_error (hverdict.trans hv), hfirst]
      rfl
    | ok _ =>
      rw [check_cons_of_ok hv, check_cons_of_ok (hverdict.trans hv), hfirst]
      dsimp only [Run.map]
      rw [ih]
      rfl

/-! ## Calls -/

theorem checkArguments_carries (h : Subject.Carries embed inner outer)
    (ps : List ParameterPolicy) (arguments : Arguments) (a : σ) :
    checkArguments outer method ps arguments (embed a) =
      (checkArguments inner method ps arguments a).map embed := by
  induction ps generalizing arguments a with
  | nil => rfl
  | cons p ps ih =>
    rcases argument_cases arguments p.index with hi | ⟨hi, hn⟩ | ⟨v, hv, hn⟩
    · rw [checkArguments_missing hi, checkArguments_missing hi]
      rfl
    · rw [checkArguments_null hi hn, checkArguments_null hi hn, ih]
    · have hfirst := check_carries h method p.requirements v a
      have hverdict := congrArg (fun run => run.result.verdict) hfirst
      cases hc : (check inner method p.requirements v a).result.verdict with
      | error e =>
        rw [checkArguments_of_error hv hn hc,
          checkArguments_of_error hv hn (hverdict.trans hc), hfirst]
        rfl
      | ok _ =>
        rw [checkArguments_of_ok hv hn hc, checkArguments_of_ok hv hn (hverdict.trans hc), hfirst]
        dsimp only [Run.map]
        rw [ih]
        rfl

variable {operation : GuardedOperation σ ε} {wide : GuardedOperation τ ε}

theorem runOperation_carries (hop : GuardedOperation.Carries embed operation wide)
    (arguments : Arguments) (a : σ) :
    runOperation wide arguments (embed a) = (runOperation operation arguments a).map embed := by
  unfold runOperation
  rw [hop]
  rfl

theorem checkResult_carries (h : Subject.Carries embed inner outer) (rs : List Requirement)
    (called : Run σ (Invoked ε)) :
    checkResult outer method rs (called.map embed) =
      (checkResult inner method rs called).map embed := by
  obtain ⟨⟨result, arguments⟩, effects, a⟩ := called
  unfold checkResult
  dsimp only [Run.map]
  split
  · split
    · rfl
    · rw [check_carries h]
      rfl
  · rfl

/-- **A checked call** carries the rest of the state along. -/
theorem invokeChecked_carries (h : Subject.Carries embed inner outer)
    (hop : GuardedOperation.Carries embed operation wide)
    (policy : MethodPolicy) (arguments : Arguments) (a : σ) :
    invokeChecked outer method policy arguments wide (embed a) =
      (invokeChecked inner method policy arguments operation a).map embed := by
  unfold invokeChecked
  rw [checkArguments_carries h]
  generalize checkArguments inner method policy.parameters.values arguments a = before
  obtain ⟨⟨verdict, arguments⟩, effects, a'⟩ := before
  cases verdict with
  | error e => rfl
  | ok _ =>
    dsimp only [Run.map]
    rw [runOperation_carries hop, checkResult_carries h]
    rfl

/-- A call of a method of a registry, with enforcement on or off. -/
def invokeOn (registry : Registry) (on : Bool) (subject : Subject τ) (method : String)
    (arguments : Arguments) (operation : GuardedOperation τ ε) (state : τ) :
    Run τ (Invoked ε) :=
  if on then
    match registry.get? method with
    | some policy => invokeChecked subject method policy arguments operation state
    | none => runOperation operation arguments state
  else
    let run := runOperation operation arguments state
    { run with effects := .logged (.bypassed method) :: run.effects }

/-- **A call shows of a guard its registry and whether it is on**, and nothing else. -/
theorem Guard.invoke_eq_invokeOn (g : Guard) (subject : Subject (World σ)) (method : String)
    (arguments : Arguments) (operation : GuardedOperation (World σ) ε) (world : World σ) :
    g.invoke subject method arguments operation world =
      invokeOn g.registry (g.isEnabled world.switches) subject method arguments operation world :=
  rfl

theorem invokeOn_carries (h : Subject.Carries embed inner outer)
    (hop : GuardedOperation.Carries embed operation wide)
    (registry : Registry) (on : Bool) (arguments : Arguments) (a : σ) :
    invokeOn registry on outer method arguments wide (embed a) =
      (invokeOn registry on inner method arguments operation a).map embed := by
  unfold invokeOn
  cases on with
  | true =>
    rw [if_pos rfl, if_pos rfl]
    cases registry.get? method with
    | none => exact runOperation_carries hop arguments a
    | some policy => exact invokeChecked_carries h hop policy arguments a
  | false =>
    rw [if_neg Bool.false_ne_true, if_neg Bool.false_ne_true, runOperation_carries hop]
    rfl

/-! ## The flags of a world -/

namespace GuardedOperation

variable {operation : GuardedOperation (World σ) ε}

/-- **An operation that sets no flag.** It may read flags. -/
def SetsNoFlag (operation : GuardedOperation (World σ) ε) : Prop :=
  ∀ arguments w, (operation arguments w).state.switches = w.switches

/-- **An operation that knows no flag**: it neither sets nor reads one. -/
def Detached (operation : GuardedOperation (World σ) ε) : Prop :=
  ∃ inner : GuardedOperation σ ε, ∀ b : Switchboard, Carries (World.mk b) inner operation

/-- On a board that an operation leaves alone, it acts as one that has a state of its own only. -/
theorem SetsNoFlag.exists_carries (h : operation.SetsNoFlag) (b : Switchboard) :
    ∃ inner : GuardedOperation σ ε, Carries (World.mk b) inner operation := by
  let inner : GuardedOperation σ ε := fun arguments own =>
    let run := operation arguments ⟨b, own⟩
    ⟨run.result, run.arguments, run.state.own⟩
  refine ⟨inner, fun arguments own => ?_⟩
  have hswitches := h arguments ⟨b, own⟩
  have hinner : inner arguments own = ⟨(operation arguments ⟨b, own⟩).result,
    (operation arguments ⟨b, own⟩).arguments, (operation arguments ⟨b, own⟩).state.own⟩ := rfl
  rw [hinner]
  generalize operation arguments ⟨b, own⟩ = run at hswitches ⊢
  obtain ⟨result, left, ⟨switches, own'⟩⟩ := run
  obtain rfl : switches = b := hswitches
  rfl

theorem Detached.setsNoFlag (h : operation.Detached) : operation.SetsNoFlag := by
  obtain ⟨inner, hcarries⟩ := h
  intro arguments w
  exact congrArg (fun run => run.state.switches) (hcarries w.switches arguments w.own)

end GuardedOperation

namespace Subject

variable {subject : Subject (World σ)}

/-- **A subject that sets no flag.** It may read flags. -/
structure SetsNoFlag (subject : Subject (World σ)) : Prop where
  judge : ∀ p v w, (subject.judge p v w).state.switches = w.switches
  narrow : ∀ p cs w, (subject.narrow p cs w).state.switches = w.switches

/-- **A subject that knows no flag**: it neither sets nor reads one. -/
def Detached (subject : Subject (World σ)) : Prop :=
  ∃ inner : Subject σ, ∀ b : Switchboard, Carries (World.mk b) inner subject

/-- On a board that a subject leaves alone, it answers as one that has a state of its own only. -/
theorem SetsNoFlag.exists_carries (h : subject.SetsNoFlag) (b : Switchboard) :
    ∃ inner : Subject σ, Carries (World.mk b) inner subject := by
  let inner : Subject σ :=
    { judge := fun p v own =>
        let answer := subject.judge p v ⟨b, own⟩
        ⟨answer.verdict, answer.notices, answer.state.own⟩
      narrow := fun p cs own =>
        let answer := subject.narrow p cs ⟨b, own⟩
        ⟨answer.verdict, answer.left, answer.notices, answer.state.own⟩ }
  refine ⟨inner, fun p v own => ?_, fun p cs own => ?_⟩
  · have hswitches := h.judge p v ⟨b, own⟩
    have hinner : inner.judge p v own = ⟨(subject.judge p v ⟨b, own⟩).verdict,
      (subject.judge p v ⟨b, own⟩).notices, (subject.judge p v ⟨b, own⟩).state.own⟩ := rfl
    rw [hinner]
    generalize subject.judge p v ⟨b, own⟩ = answer at hswitches ⊢
    obtain ⟨verdict, notices, ⟨switches, own'⟩⟩ := answer
    obtain rfl : switches = b := hswitches
    rfl
  · have hswitches := h.narrow p cs ⟨b, own⟩
    have hinner : inner.narrow p cs own = ⟨(subject.narrow p cs ⟨b, own⟩).verdict,
      (subject.narrow p cs ⟨b, own⟩).left, (subject.narrow p cs ⟨b, own⟩).notices,
      (subject.narrow p cs ⟨b, own⟩).state.own⟩ := rfl
    rw [hinner]
    generalize subject.narrow p cs ⟨b, own⟩ = answer at hswitches ⊢
    obtain ⟨verdict, left, notices, ⟨switches, own'⟩⟩ := answer
    obtain rfl : switches = b := hswitches
    rfl

theorem Detached.setsNoFlag (h : subject.Detached) : subject.SetsNoFlag := by
  obtain ⟨inner, hcarries⟩ := h
  refine ⟨fun p v w => ?_, fun p cs w => ?_⟩
  · exact congrArg (fun answer => answer.state.switches) ((hcarries w.switches).judge p v w.own)
  · exact congrArg (fun answer => answer.state.switches) ((hcarries w.switches).narrow p cs w.own)

/-- **A check sets no flag** on its own. -/
theorem SetsNoFlag.check_switches (h : subject.SetsNoFlag) (method : String)
    (rs : List Requirement) (v : Value) (world : World σ) :
    (check subject method rs v world).state.switches = world.switches := by
  obtain ⟨inner, hcarries⟩ := h.exists_carries world.switches
  exact congrArg (fun run => run.state.switches) (check_carries hcarries method rs v world.own)

/-- **Nor does a call.** -/
theorem SetsNoFlag.invoke_switches (h : subject.SetsNoFlag)
    {operation : GuardedOperation (World σ) ε} (hop : operation.SetsNoFlag) (g : Guard)
    (method : String) (arguments : Arguments) (world : World σ) :
    (g.invoke subject method arguments operation world).state.switches = world.switches := by
  obtain ⟨inner, hcarries⟩ := h.exists_carries world.switches
  obtain ⟨plain, hplain⟩ := hop.exists_carries world.switches
  rw [Guard.invoke_eq_invokeOn]
  exact congrArg (fun run => run.state.switches) (invokeOn_carries hcarries hplain g.registry
    (g.isEnabled world.switches) arguments world.own)

/-- A check by a subject that knows no flag is the same on every board. -/
theorem Detached.check_boards (h : subject.Detached) (method : String) (rs : List Requirement)
    (v : Value) (own : σ) (b c : Switchboard) :
    (check subject method rs v ⟨b, own⟩).result = (check subject method rs v ⟨c, own⟩).result ∧
      (check subject method rs v ⟨b, own⟩).effects =
        (check subject method rs v ⟨c, own⟩).effects := by
  obtain ⟨inner, hcarries⟩ := h
  rw [check_carries (hcarries b), check_carries (hcarries c)]
  exact ⟨rfl, rfl⟩

/-- A call is the same for two guards of one registry that are both on or both off, whatever else
is on their boards. -/
theorem Detached.invoke_boards (h : subject.Detached) {operation : GuardedOperation (World σ) ε}
    (hop : operation.Detached) {g k : Guard} {b c : Switchboard}
    (hregistry : g.registry = k.registry) (hon : g.isEnabled b = k.isEnabled c) (method : String)
    (arguments : Arguments) (own : σ) :
    (g.invoke subject method arguments operation ⟨b, own⟩).result =
        (k.invoke subject method arguments operation ⟨c, own⟩).result ∧
      (g.invoke subject method arguments operation ⟨b, own⟩).effects =
        (k.invoke subject method arguments operation ⟨c, own⟩).effects := by
  obtain ⟨inner, hcarries⟩ := h
  obtain ⟨plain, hplain⟩ := hop
  rw [Guard.invoke_eq_invokeOn, Guard.invoke_eq_invokeOn, invokeOn_carries (hcarries b) (hplain b),
    invokeOn_carries (hcarries c) (hplain c), hregistry, hon]
  exact ⟨rfl, rfl⟩

end Subject

end AccessGuard
