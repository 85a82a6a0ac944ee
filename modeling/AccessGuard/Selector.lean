import AccessGuard.Permission
import AccessGuard.Value.Basic

/-!
# Selectors

```text
selector := identifier step*
step     := "." identifier     a field, taken from every element of a list
          | "*." identifier    a field of every element; only of a list
          | ".flatten()"       nested lists opened; only of a list
```

* `Selector.compile`: the steps of a permission's path.
* `Selector.resolve`: the value that the steps lead to.
* `EvaluationError`: why a selector leads nowhere.
-/

namespace AccessGuard

/-- One step of a selector. -/
inductive Step where
  | field (name : String)
  | spread (name : String)
  | flatten
deriving DecidableEq

/-- A binding and the steps from the value bound under it. -/
structure Selector where
  binding : String
  steps : List Step
deriving DecidableEq

/-- A step as it is written in a path. -/
def Step.write : Step → List Char
  | field name => '.' :: name.toList
  | spread name => '*' :: '.' :: name.toList
  | flatten => ".flatten()".toList

/-- A selector as it is written. -/
def Selector.text (s : Selector) : String := s.binding ++ .ofList (s.steps.flatMap Step.write)

namespace Step

/-- The first step of a path and the path after it. A `flatten` without parentheses is a
field of that name. -/
def read (path : List Char) : Except PathFault (Step × List Char) :=
  match path with
  | '*' :: '.' :: after =>
    match takeIdentifier after with
    | none => .error (.missingName "*." (.ofList path))
    | some (name, rest) => .ok (.spread (.ofList name), rest)
  | '.' :: after =>
    match takeIdentifier after with
    | none => .error (.missingName "." (.ofList path))
    | some (name, '(' :: ')' :: rest) =>
      if name = "flatten".toList then .ok (.flatten, rest)
      else .error (.unsupportedCall (.ofList name))
    | some (name, rest) => .ok (.field (.ofList name), rest)
  | _ => .error (.unexpectedInput (.ofList path))

theorem read_length {path rest : List Char} {step : Step} (h : read path = .ok (step, rest)) :
    rest.length < path.length := by
  have shorter {cs name rest : List Char} (h : takeIdentifier cs = some (name, rest)) :
      rest.length ≤ cs.length := by
    rw [(takeIdentifier_eq_some.1 h).1]; simp
  unfold read at h
  split at h
  · split at h
    · cases h
    · cases h; have := shorter ‹_›; simp only [List.length_cons]; omega
  · split at h
    · cases h
    · split at h
      · cases h; have := shorter ‹_›; simp only [List.length_cons] at this ⊢; omega
      · cases h
    · cases h; have := shorter ‹_›; simp only [List.length_cons]; omega
  · cases h

/-- All steps of a path. -/
def readAll (path : List Char) : Except PathFault (List Step) :=
  match path with
  | [] => .ok []
  | c :: cs =>
    match h : read (c :: cs) with
    | .error fault => .error fault
    | .ok (step, rest) =>
      have := read_length h
      (readAll rest).map (step :: ·)
termination_by path.length
decreasing_by assumption

end Step

/-- The selector of a permission. -/
def Selector.compile (p : Permission) : Except MalformedPermission Selector :=
  match Step.readAll p.path.toList with
  | .error fault => .error ⟨p.text, .invalidSelector fault⟩
  | .ok steps => .ok ⟨p.binding, steps⟩

/-- What a step does with a value of the right kind. -/
inductive Operation where
  | readField
  | spread
  | flatten
deriving DecidableEq

/-- The words for it in messages. -/
def Operation.phrase : Operation → String
  | readField => "read a field of"
  | spread => "spread over"
  | flatten => "flatten"

/-- Why a step cannot be taken. -/
inductive StepFault where
  | unbound (binding : String)
  | missingField (field : String)
  | nullTraversal (field : String)
  | wrongShape (operation : Operation) (kind : Kind)
deriving DecidableEq

/-- A selector that leads nowhere. A requirement that cannot be evaluated is never taken as
met, so this refuses the call. -/
structure EvaluationError where
  selector : String
  fault : StepFault
deriving DecidableEq

/-- The text of a fault. -/
def StepFault.message : StepFault → String
  | unbound binding => s!"identifier '{binding}' is not bound"
  | missingField field => s!"field '{field}' not found"
  | nullTraversal field => s!"cannot read '{field}' from null"
  | wrongShape operation kind => s!"cannot {operation.phrase} a {kind.name} value"

/-- The text of an error, which names the selector. -/
def EvaluationError.message (e : EvaluationError) : String :=
  s!"selector '{e.selector}': {e.fault.message}"

namespace Value

mutual

/-- The field of a record, or of every record of a list. -/
def project (name : String) : Value → Except StepFault Value
  | record fields =>
    match fields.lookup name with
    | some v => .ok v
    | none => .error (.missingField name)
  | list items => (projectAll name items).map list
  | null => .error (.nullTraversal name)
  | bool _ => .error (.wrongShape .readField .bool)
  | int _ => .error (.wrongShape .readField .int)
  | decimal _ => .error (.wrongShape .readField .decimal)
  | str _ => .error (.wrongShape .readField .str)
termination_by structural v => v

/-- The first element without the field decides the error. -/
def projectAll (name : String) : List Value → Except StepFault (List Value)
  | [] => .ok []
  | v :: vs =>
    match project name v with
    | .error fault => .error fault
    | .ok w => (projectAll name vs).map (w :: ·)
termination_by structural vs => vs

end

end Value

namespace Step

/-- What a step makes of a value. -/
def apply : Step → Value → Except StepFault Value
  | field name, v => v.project name
  | spread name, v =>
    if v.isList then v.project name else .error (.wrongShape .spread v.kind)
  | flatten, v =>
    if v.isList then .ok (.list v.leaves) else .error (.wrongShape .flatten v.kind)

/-- One step after the other. -/
def applyAll : List Step → Value → Except StepFault Value
  | [], v => .ok v
  | s :: ss, v =>
    match s.apply v with
    | .error fault => .error fault
    | .ok w => applyAll ss w

end Step

/-- The value that a selector leads to from the value bound under its binding. -/
def Selector.resolve (s : Selector) (v : Value) : Except EvaluationError Value :=
  match Step.applyAll s.steps v with
  | .error fault => .error ⟨s.text, fault⟩
  | .ok w => .ok w

end AccessGuard
