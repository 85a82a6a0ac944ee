import AccessGuard.Guard.Invoke

/-!
# Sessions

A guard in use: a second handle on the same guard, an outer toggle that the guard may or may
not share, and steps that reload the configuration, set flags, check values and call methods.

* `Session.step`: one step, with what it answers and its effects.
* `scripted`: an operation given as a list of instructions.
-/

namespace AccessGuard

/-- An instruction of a scripted operation. -/
inductive Instruction where
  | set (index : Nat) (v : Option Value)
  | returnValue (v : Option Value)
  | returnArgument (index : Nat)
  | fail (reason : String)

/-- Runs up to the first instruction that ends the operation; without one nothing is
returned. -/
def runScript : List Instruction → Arguments → Except String (Option Value) × Arguments
  | [], arguments => (.ok none, arguments)
  | .set index v :: rest, arguments => runScript rest (arguments.set index v)
  | .returnValue v :: _, arguments => (.ok v, arguments)
  | .returnArgument index :: _, arguments => (.ok (arguments[index]?.getD none), arguments)
  | .fail reason :: _, arguments => (.error reason, arguments)

/-- The operation that follows a script and keeps no state. -/
def scripted {τ : Type} (script : List Instruction) : GuardedOperation τ String :=
  fun arguments state =>
    let (result, arguments) := runScript script arguments
    ⟨result, arguments, state⟩

/-- The requirements that a check applies. -/
inductive Slot where
  | parameter (index : Nat)
  | result
deriving DecidableEq

/-- What a method requires in a slot: nothing of a parameter that is not declared. -/
def MethodPolicy.requirements (p : MethodPolicy) : Slot → List Requirement
  | .parameter index => p.parameterRequirements index
  | .result => p.returns

/-- A method that is not registered requires nothing. -/
def Guard.requirements (g : Guard) (method : String) (slot : Slot) : List Requirement :=
  match g.registry.get? method with
  | some p => p.requirements slot
  | none => []

/-- A guard and its copy, an outer toggle, and the world that they are in. -/
structure Session (σ : Type) where
  guard : Guard
  twin : Guard
  outer : Toggle
  world : World σ

/-- Which of the two handles on the guard a step uses. -/
inductive Actor where
  | guard
  | twin
deriving DecidableEq

/-- A step of a session. Its subject and its operation are any, with the world for a state. -/
inductive SessionStep (σ ε : Type) where
  | reload (actor : Actor) (config : SecurityConfig)
  | toggle (actor : Actor) (on : Bool)
  | outerToggle (on : Bool)
  | check (actor : Actor) (method : String) (slot : Slot) (v : Value) (subject : Subject (World σ))
  | invoke (actor : Actor) (method : String) (arguments : Arguments)
      (operation : GuardedOperation (World σ) ε) (subject : Subject (World σ))

/-- What a step answers; where a flag is set, what it was before. -/
inductive StepAnswer (ε : Type) where
  | reloaded
  | previous (on : Bool)
  | checked (c : Checked Value)
  | invoked (i : Invoked ε)

namespace Session

variable {σ ε : Type}

/-- A session over a new guard. The outer toggle is made from the configuration; the guard
shares its flag or has one of its own. -/
def start (registry : Registry) (config : SecurityConfig) (shared : Bool) (own : σ) :
    Session σ × GuardEvent :=
  let (switches, outer) := Switchboard.add ⟨[]⟩ config.isEnabled
  let (guard, event, switches) :=
    if shared then
      let (guard, event) := Guard.withToggle registry outer switches
      (guard, event, switches)
    else Guard.new registry config switches
  (⟨guard, guard, outer, ⟨switches, own⟩⟩, event)

/-- The handle that an actor uses. -/
def actor (s : Session σ) : Actor → Guard
  | .guard => s.guard
  | .twin => s.twin

/-- Does the guard enforce? -/
def isEnabled (s : Session σ) : Bool := s.guard.isEnabled s.world.switches

/-- The session with other flags. -/
def withSwitches (s : Session σ) (switches : Switchboard) : Session σ :=
  { s with world := { s.world with switches := switches } }

/-- One step: its answer, its effects in order, and the session after it. -/
def step (s : Session σ) : SessionStep σ ε → StepAnswer ε × List Effect × Session σ
  | .reload a config =>
    let (event, switches) := (s.actor a).reload config s.world.switches
    (.reloaded, event.toList.map .logged, s.withSwitches switches)
  | .toggle a on =>
    let t := (s.actor a).toggle
    (.previous (s.world.switches.isOn t), [], s.withSwitches (s.world.switches.set t on))
  | .outerToggle on =>
    (.previous (s.world.switches.isOn s.outer), [],
      s.withSwitches (s.world.switches.set s.outer on))
  | .check a method slot v subject =>
    let run := check subject method ((s.actor a).requirements method slot) v s.world
    (.checked run.result, run.effects, { s with world := run.state })
  | .invoke a method arguments operation subject =>
    let run := (s.actor a).invoke subject method arguments operation s.world
    (.invoked run.result, run.effects, { s with world := run.state })

end Session

end AccessGuard
