import AccessGuard.Grant
import AccessGuard.Json.Decode
import AccessGuard.Uuid

/-!
# Principals

An authenticated caller: its identity, its roles and the grants that it holds itself. Who it
is has been settled elsewhere.

* `Principal.decode`, `Principal.toJson`: the stored form.
-/

namespace AccessGuard

/-- An authenticated caller. Roles and grants are in order, and may be repeated. -/
structure Principal where
  id : Uuid
  roles : List String
  grants : List Grant
deriving DecidableEq

/-- An identifier in one of its spellings. -/
def Uuid.decode : Tree → Except DecodeError Uuid := fun t => do
  match Uuid.read? (← t.decodeString) with
  | some u => return u
  | none => .error .unreadable

/-- A grant; a text that is none is refused with the reason. -/
def Grant.decode : Tree → Except DecodeError Grant := fun t => do
  match Grant.parse (← t.decodeString) with
  | .ok g => return g
  | .error e => .error (.refused e.message)

/-- The grants of a list in JSON. -/
def Grant.listToJson (gs : List Grant) : Json := .array (gs.map fun g => .string g.text)

namespace Principal

/-- One role more. -/
def withRole (p : Principal) (role : String) : Principal := { p with roles := p.roles ++ [role] }

/-- One grant more. -/
def withGrant (p : Principal) (g : Grant) : Principal := { p with grants := p.grants ++ [g] }

/-- The fields read so far. -/
structure Draft where
  id : Option Uuid := none
  roles : Option (List String) := none
  grants : Option (List Grant) := none

/-- Other fields than these three are allowed and not looked at. -/
def decodeField (d : Draft) (name : String) (t : Tree) : Except DecodeError Draft := do
  match name with
  | "principal_id" => return { d with id := ← Tree.setOnce name d.id Uuid.decode t }
  | "roles" =>
    return { d with roles := ← Tree.setOnce name d.roles (Tree.decodeList Tree.decodeString) t }
  | "grants" =>
    return { d with grants := ← Tree.setOnce name d.grants (Tree.decodeList Grant.decode) t }
  | _ => do t.skip; return d

/-- Roles and grants may be left out. -/
def decode : Tree → Except DecodeError Principal
  | .object members closed => do
    let d ← Tree.foldMembers decodeField {} members
    if closed then
      let id ← Tree.require "principal_id" d.id
      return ⟨id, d.roles.getD [], d.grants.getD []⟩
    else .error .unreadable
  | .array items closed => do
    let (id, items) ← Tree.nextField Uuid.decode items
    let (roles, items) ← Tree.nextFieldOr [] (Tree.decodeList Tree.decodeString) items
    let (grants, items) ← Tree.nextFieldOr [] (Tree.decodeList Grant.decode) items
    Tree.endFields closed items
    return ⟨id, roles, grants⟩
  | _ => .error .unreadable

/-- The principal of a document. -/
def ofText (text : String) : Except DecodeError Principal := Tree.decodeText decode text

/-- The stored form, in which nothing is left out. -/
def toJson (p : Principal) : Json := .ofMembers [
  ("principal_id", .string p.id.text),
  ("roles", .array (p.roles.map .string)),
  ("grants", Grant.listToJson p.grants)]

end Principal

end AccessGuard
