import AccessGuard.Principal
import AccessGuard.Table

/-!
# Role policies

What each role grants. A principal's effective grants are its own, followed by those of its
roles that are not among them yet.

* `RolePolicy.effective`: the effective grants of a principal.
* `RolePolicy.decode`, `RolePolicy.toJson`: the stored form, an object from roles to grants.
-/

namespace AccessGuard

/-- The grants of each role, in order. -/
structure RolePolicy where
  roles : Table String (List Grant)
deriving DecidableEq

/-- Appends what is not there yet, in order. -/
def addNew {α : Type} [DecidableEq α] (known : List α) : List α → List α
  | [] => known
  | x :: xs => addNew (if x ∈ known then known else known ++ [x]) xs

namespace RolePolicy

/-- No role grants anything. -/
def empty : RolePolicy := ⟨.empty⟩

/-- One more grant for a role. -/
def grant (p : RolePolicy) (role : String) (g : Grant) : RolePolicy :=
  ⟨p.roles.insert role ((p.roles.get? role).getD [] ++ [g])⟩

/-- A role that the policy does not know grants nothing. -/
def grantsFor (p : RolePolicy) (role : String) : List Grant := (p.roles.get? role).getD []

/-- The own grants of a principal, and those of its roles that are new, role by role. -/
def effective (p : RolePolicy) (who : Principal) : List Grant :=
  addNew who.grants (who.roles.flatMap p.grantsFor)

/-- Of a role that is listed twice, the last entry counts. -/
def decode : Tree → Except DecodeError RolePolicy := fun t => do
  let entries ← t.decodeMembers (Tree.decodeList Grant.decode)
  return ⟨.ofList entries⟩

/-- The policy of a document. -/
def ofText (text : String) : Except DecodeError RolePolicy := Tree.decodeText decode text

/-- The stored form, by ascending role. -/
def toJson (p : RolePolicy) : Json :=
  .object (p.roles.entries.map fun (role, gs) => (role, Grant.listToJson gs))

end RolePolicy

end AccessGuard
