import AccessGuard.Guard.Check
import AccessGuard.Registry
import AccessGuard.Switchboard

/-!
# Guarded calls

A guard stands in front of the methods of a registry. While enforcement is on, a call passes
three stages: the requirements on the parameters, in ascending position, which may narrow list
arguments; the operation itself; and the requirements on its result. The flag is read once, at
the beginning.

* `checkArguments`: the first stage.
* `Guard.invoke`: the whole call.
* `Guard.reload`: a changed configuration.
-/

namespace AccessGuard

/-- What a call may change: the flags of a switchboard, and whatever subject and operation keep
of their own. -/
structure World (σ : Type) where
  switches : Switchboard
  own : σ

/-- A registry behind a flag. Guards with the same toggle are switched together. -/
structure Guard where
  registry : Registry
  toggle : Toggle
deriving DecidableEq

/-- What the guarded operation leaves behind. It may change the arguments. -/
structure OperationRun (τ ε : Type) where
  result : Except ε (Option Value)
  arguments : Arguments
  state : τ

/-- The operation behind a guard. It may read and change the state, as the subject may. -/
abbrev GuardedOperation (τ ε : Type) := Arguments → τ → OperationRun τ ε

/-- The end of a call: the result, and the arguments as they are afterwards. -/
structure Invoked (ε : Type) where
  result : Except (InvocationError ε) (Option Value)
  arguments : Arguments

section Stages

variable {τ ε : Type}

/-- Absent and null arguments are not checked; an argument that is not there at all is an
error. -/
def checkArguments (subject : Subject τ) (method : String) :
    List ParameterPolicy → Arguments → τ → Run τ (Except GuardError Unit × Arguments)
  | [], arguments, state => ⟨(.ok (), arguments), [], state⟩
  | p :: ps, arguments, state =>
    match arguments[p.index]? with
    | none => ⟨(.error (.missingArgument method p.index arguments.length), arguments), [], state⟩
    | some none => checkArguments subject method ps arguments state
    | some (some v) =>
      if v.isNull then checkArguments subject method ps arguments state
      else
        let first := check subject method p.requirements v state
        let arguments := arguments.set p.index (some first.result.value)
        match first.result.verdict with
        | .error e => ⟨(.error e, arguments), first.effects, first.state⟩
        | .ok _ =>
          let rest := checkArguments subject method ps arguments first.state
          { rest with effects := first.effects ++ rest.effects }

/-- The operation without any check. -/
def runOperation (operation : GuardedOperation τ ε) (arguments : Arguments) (state : τ) :
    Run τ (Invoked ε) :=
  let run := operation arguments state
  ⟨⟨run.result.mapError .operation, run.arguments⟩, [.started arguments], run.state⟩

/-- An absent result, a null result and one without requirements are returned as they are. -/
def checkResult (subject : Subject τ) (method : String) (requirements : List Requirement)
    (called : Run τ (Invoked ε)) : Run τ (Invoked ε) :=
  match called.result.result with
  | .ok (some v) =>
    if v.isNull || requirements.isEmpty then called
    else
      let last := check subject method requirements v called.state
      let result := match last.result.verdict with
        | .ok _ => .ok (some last.result.value)
        | .error e => .error (.guard e)
      ⟨⟨result, called.result.arguments⟩, called.effects ++ last.effects, last.state⟩
  | _ => called

/-- All three stages. -/
def invokeChecked (subject : Subject τ) (method : String) (policy : MethodPolicy)
    (arguments : Arguments) (operation : GuardedOperation τ ε) (state : τ) : Run τ (Invoked ε) :=
  let before := checkArguments subject method policy.parameters.values arguments state
  match before.result with
  | (.error e, arguments) => ⟨⟨.error (.guard e), arguments⟩, before.effects, before.state⟩
  | (.ok _, arguments) =>
    let after := checkResult subject method policy.returns
      (runOperation operation arguments before.state)
    { after with effects := before.effects ++ after.effects }

end Stages

namespace Guard

variable {σ ε : Type}

/-- A guard that shares the flag of a toggle. -/
def withToggle (registry : Registry) (toggle : Toggle) (switches : Switchboard) :
    Guard × GuardEvent :=
  (⟨registry, toggle⟩, .ready registry.size (switches.isOn toggle))

/-- A guard with a flag of its own. -/
def new (registry : Registry) (config : SecurityConfig) (switches : Switchboard) :
    Guard × GuardEvent × Switchboard :=
  let (switches, toggle) := switches.add config.isEnabled
  let (guard, event) := withToggle registry toggle switches
  (guard, event, switches)

/-- Does the guard enforce? -/
def isEnabled (g : Guard) (switches : Switchboard) : Bool := switches.isOn g.toggle

/-- Only a change of the flag is reported. -/
def reload (g : Guard) (config : SecurityConfig) (switches : Switchboard) :
    Option GuardEvent × Switchboard :=
  let event :=
    if g.isEnabled switches = config.isEnabled then none else some (.toggled config.isEnabled)
  (event, switches.set g.toggle config.isEnabled)

/-- A call of a method that is not registered is not checked. -/
def invoke (g : Guard) (subject : Subject (World σ)) (method : String) (arguments : Arguments)
    (operation : GuardedOperation (World σ) ε) (world : World σ) :
    Run (World σ) (Invoked ε) :=
  if g.isEnabled world.switches then
    match g.registry.get? method with
    | some policy => invokeChecked subject method policy arguments operation world
    | none => runOperation operation arguments world
  else
    let run := runOperation operation arguments world
    { run with effects := .logged (.bypassed method) :: run.effects }

end Guard

end AccessGuard
