import AccessGuard.Json.Decode
import AccessGuard.Requirement
import AccessGuard.Table

/-!
# The registry of methods

Which requirements a method declares on its parameters and on its result. A registry is built
method by method, or from a document:

```json
{ "cases.update": {
    "parameters": [{ "index": 0, "name": "c", "permissions": ["case:edit:c.county"] }],
    "returns": ["case:view:r.county"] } }
```

* `MethodPolicy.parameter`, `MethodPolicy.withReturns`: one declaration more.
* `Registry.register`: one method more.
* `Registry.ofText`: the registry of a document; of a method that is listed twice, the last
  entry counts.
-/

namespace AccessGuard

/-- The requirements on the parameter at a position, in the order of their declaration. -/
structure ParameterPolicy where
  index : Nat
  name : String
  requirements : List Requirement
deriving DecidableEq

/-- Everything that one method declares; the parameters by ascending position, each of them under
its own. -/
@[ext] structure MethodPolicy where
  parameters : Table Nat ParameterPolicy
  returns : List Requirement
  index_eq : ∀ entry ∈ parameters.entries, entry.2.index = entry.1
deriving DecidableEq

/-- Why a registry cannot be made. -/
inductive RegistryError where
  | malformed (e : MalformedPermission)
  | duplicateMethod (method : String)
  | duplicateParameter (index : Nat)
  | document (e : DecodeError)
deriving DecidableEq

/-- The text of an error, as far as it is not the reader's own. -/
def RegistryError.message? : RegistryError → Option String
  | malformed e => some e.message
  | duplicateMethod method => some s!"method '{method}' is registered twice"
  | duplicateParameter index => some s!"parameter {index} is declared twice"
  | document e => e.message?.map ("invalid policy document: " ++ ·)

/-- Parameters with strictly ascending positions. -/
def ByPosition (ps : List ParameterPolicy) : Prop := ps.Pairwise fun p q => p.index < q.index

/-- After a position come greater ones. -/
theorem ByPosition.lt_of_cons {p : ParameterPolicy} {ps : List ParameterPolicy}
    (h : ByPosition (p :: ps)) : ∀ i ∈ ps.map (·.index), p.index < i :=
  List.forall_mem_map.2 (List.pairwise_cons.1 h).1

namespace MethodPolicy

/-- Nothing is declared. -/
def empty : MethodPolicy := ⟨.empty, [], List.forall_mem_nil _⟩

/-- Is nothing declared? -/
def isEmpty (p : MethodPolicy) : Bool := p.parameters.isEmpty && p.returns.isEmpty

theorem get?_parameters_eq_some_iff {p : MethodPolicy} {i : Nat} {q : ParameterPolicy} :
    p.parameters.get? i = some q ↔ q ∈ p.parameters.values ∧ q.index = i := by
  rw [Table.get?_eq_some_iff, Table.values, List.mem_map]
  constructor
  · intro h
    exact ⟨⟨(i, q), h, rfl⟩, p.index_eq _ h⟩
  · rintro ⟨⟨⟨j, q⟩, h, rfl⟩, rfl⟩
    rw [p.index_eq _ h]
    exact h

/-- The positions of the parameters are their keys. -/
theorem map_index_values (p : MethodPolicy) :
    p.parameters.values.map (·.index) = p.parameters.keys := by
  rw [Table.values, Table.keys, List.map_map]
  exact List.map_congr_left p.index_eq

/-- The parameters are listed by position. -/
theorem byPosition_values (p : MethodPolicy) : ByPosition p.parameters.values := by
  have hkeys : p.parameters.keys.Pairwise (· < ·) :=
    List.pairwise_map.2 (p.parameters.ascending.imp Nat.compare_eq_lt.1)
  rw [← map_index_values] at hkeys
  exact List.pairwise_map.1 hkeys

/-- Requirements on the parameter at a position, bound under its name. A malformed requirement
is reported before a position that is taken. -/
def parameter (p : MethodPolicy) (index : Nat) (name : String) (texts : List String) :
    Except RegistryError MethodPolicy :=
  match Requirement.compileAll (some name) texts with
  | .error e => .error (.malformed e)
  | .ok rs =>
    if p.parameters.contains index then .error (.duplicateParameter index)
    else .ok { p with
      parameters := p.parameters.insert index ⟨index, name, rs⟩
      index_eq := Table.forall_mem_insert rfl p.index_eq }

/-- Requirements on the result; each binds it under an identifier of its own. -/
def withReturns (p : MethodPolicy) (texts : List String) : Except RegistryError MethodPolicy :=
  match Requirement.compileAll none texts with
  | .error e => .error (.malformed e)
  | .ok rs => .ok { p with returns := p.returns ++ rs }

/-- What is required of a parameter: nothing if it is not declared. -/
def parameterRequirements (p : MethodPolicy) (index : Nat) : List Requirement :=
  match p.parameters.get? index with
  | some q => q.requirements
  | none => []

end MethodPolicy

/-- The policies of the guarded methods. -/
structure Registry where
  methods : Table String MethodPolicy
deriving DecidableEq

namespace Registry

/-- No methods are guarded. -/
def empty : Registry := ⟨.empty⟩

/-- The policy of a method, if it is guarded. -/
def get? (r : Registry) (method : String) : Option MethodPolicy := r.methods.get? method

/-- The number of guarded methods. -/
def size (r : Registry) : Nat := r.methods.size

/-- Are no methods guarded? -/
def isEmpty (r : Registry) : Bool := r.methods.isEmpty

/-- One method more. A method is registered once. -/
def register (r : Registry) (method : String) (p : MethodPolicy) : Except RegistryError Registry :=
  if r.methods.contains method then .error (.duplicateMethod method)
  else .ok ⟨r.methods.insert method p⟩

/-- The entry of a parameter in a document. -/
structure ParameterEntry where
  index : Nat
  name : String
  permissions : List String
deriving DecidableEq

/-- The entry of a method in a document. -/
structure MethodEntry where
  parameters : List ParameterEntry
  returns : List String
deriving DecidableEq

namespace ParameterEntry

/-- The fields of a parameter that have been read so far. -/
structure Draft where
  index : Option Nat := none
  name : Option String := none
  permissions : Option (List String) := none

/-- One field of a parameter. -/
def decodeField (d : Draft) (name : String) (t : Tree) : Except DecodeError Draft := do
  match name with
  | "index" => return { d with index := ← Tree.setOnce name d.index Tree.decodeIndex t }
  | "name" => return { d with name := ← Tree.setOnce name d.name Tree.decodeString t }
  | "permissions" =>
    return { d with
      permissions := ← Tree.setOnce name d.permissions (Tree.decodeList Tree.decodeString) t }
  | _ => .error (.unknownField name ["index", "name", "permissions"])

/-- All three fields are needed and there are no others. -/
def decode : Tree → Except DecodeError ParameterEntry
  | .object members closed => do
    let d ← Tree.foldMembers decodeField {} members
    if closed then
      let index ← Tree.require "index" d.index
      let name ← Tree.require "name" d.name
      let permissions ← Tree.require "permissions" d.permissions
      return ⟨index, name, permissions⟩
    else .error .unreadable
  | .array items closed => do
    let (index, items) ← Tree.nextField Tree.decodeIndex items
    let (name, items) ← Tree.nextField Tree.decodeString items
    let (permissions, items) ← Tree.nextField (Tree.decodeList Tree.decodeString) items
    Tree.endFields closed items
    return ⟨index, name, permissions⟩
  | _ => .error .unreadable

end ParameterEntry

namespace MethodEntry

/-- The fields of a method that have been read so far. -/
structure Draft where
  parameters : Option (List ParameterEntry) := none
  returns : Option (List String) := none

/-- One field of a method. -/
def decodeField (d : Draft) (name : String) (t : Tree) : Except DecodeError Draft := do
  match name with
  | "parameters" =>
    return { d with
      parameters := ← Tree.setOnce name d.parameters (Tree.decodeList ParameterEntry.decode) t }
  | "returns" =>
    return { d with
      returns := ← Tree.setOnce name d.returns (Tree.decodeList Tree.decodeString) t }
  | _ => .error (.unknownField name ["parameters", "returns"])

/-- Both fields may be left out and there are no others. -/
def decode : Tree → Except DecodeError MethodEntry
  | .object members closed => do
    let d ← Tree.foldMembers decodeField {} members
    if closed then return ⟨d.parameters.getD [], d.returns.getD []⟩ else .error .unreadable
  | .array items closed => do
    let (parameters, items) ← Tree.nextFieldOr [] (Tree.decodeList ParameterEntry.decode) items
    let (returns, items) ← Tree.nextFieldOr [] (Tree.decodeList Tree.decodeString) items
    Tree.endFields closed items
    return ⟨parameters, returns⟩
  | _ => .error .unreadable

/-- Declares the parameters in the order of the entry. -/
def declareAll (p : MethodPolicy) : List ParameterEntry → Except RegistryError MethodPolicy
  | [] => .ok p
  | e :: es => do declareAll (← p.parameter e.index e.name e.permissions) es

/-- The policy of an entry; its parameters are declared before its result. -/
def policy (e : MethodEntry) : Except RegistryError MethodPolicy := do
  (← declareAll .empty e.parameters).withReturns e.returns

end MethodEntry

/-- Registers the entries in turn. -/
def registerAll (r : Registry) : List (String × MethodEntry) → Except RegistryError Registry
  | [] => .ok r
  | (method, e) :: es => do registerAll (← r.register method (← e.policy)) es

/-- Entries are registered by ascending name, so of several errors that of the least name is
reported. -/
def ofDocument (document : Table String MethodEntry) : Except RegistryError Registry :=
  registerAll empty document.entries

/-- The entries of a document by ascending name; of a method that is listed twice, the last. -/
def decodeDocument : Tree → Except DecodeError (Table String MethodEntry) := fun t => do
  return .ofList (← t.decodeMembers MethodEntry.decode)

/-- The registry of a document. -/
def ofText (text : String) : Except RegistryError Registry :=
  match Tree.decodeText decodeDocument text with
  | .error e => .error (.document e)
  | .ok document => ofDocument document

end Registry

end AccessGuard
