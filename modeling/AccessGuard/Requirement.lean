import AccessGuard.Selector

/-!
# Requirements

A permission together with its compiled selector.

* `Requirement.compile`: reads a requirement, and checks the identifier it binds where one is
  expected.
-/

namespace AccessGuard

/-- A required permission, and the selector that leads to what it is required on. -/
structure Requirement where
  permission : Permission
  selector : Selector
deriving DecidableEq

/-- A wrong identifier is reported before the path is looked at. -/
def Requirement.compile (text : String) (expected : Option String) :
    Except MalformedPermission Requirement := do
  let p ← Permission.parse text
  if let some name := expected then
    if p.binding ≠ name then throw ⟨p.text, .bindingMismatch name p.binding⟩
  let s ← Selector.compile p
  return ⟨p, s⟩

/-- All requirements of a list, or the error of the first text that is none. -/
def Requirement.compileAll (expected : Option String) :
    List String → Except MalformedPermission (List Requirement)
  | [] => .ok []
  | text :: texts => do
    let r ← compile text expected
    let rs ← compileAll expected texts
    return r :: rs

end AccessGuard
