/-!
# Values

The arguments and results of guarded calls, as the guard sees them. The model is
closed: two values can be compared for equality and order whatever they hold, so a
projected attribute can stand in a set of candidates.

* `Value.kind`: the seven kinds, in the order in which values of different kinds compare.
* `Value.field?`: the field of a record, the first of its name.
* `Value.instanceText`: the text a leaf is matched under; null, lists and records have none.
* `Value.leaves`: the values below all nested lists, from left to right.
-/

namespace AccessGuard

/-- A checked value. A number that fits 64 signed bits is an `int`; any other number is a
`decimal` holding its text. The fields of a record are listed by ascending name. -/
inductive Value where
  | null
  | bool (b : Bool)
  | int (n : Int64)
  | decimal (text : String)
  | str (text : String)
  | list (items : List Value)
  | record (fields : List (String × Value))
deriving Inhabited

/-- What a value is, apart from its content. -/
inductive Kind where
  | null
  | bool
  | int
  | decimal
  | str
  | list
  | record
deriving DecidableEq

namespace Kind

/-- The word for a kind in messages. -/
def name : Kind → String
  | null => "null"
  | bool => "bool"
  | int => "int"
  | decimal => "decimal"
  | str => "string"
  | list => "list"
  | record => "record"

/-- The place of a kind in the order of values. -/
def rank : Kind → Nat
  | null => 0
  | bool => 1
  | int => 2
  | decimal => 3
  | str => 4
  | list => 5
  | record => 6

end Kind

namespace Value

/-- The kind of a value. -/
def kind : Value → Kind
  | null => .null
  | bool _ => .bool
  | int _ => .int
  | decimal _ => .decimal
  | str _ => .str
  | list _ => .list
  | record _ => .record

/-- Is a value null? -/
def isNull : Value → Bool
  | null => true
  | _ => false

/-- Is a value a list? Lists are narrowed, other values are not. -/
def isList : Value → Bool
  | list _ => true
  | _ => false

/-- The elements of a list. -/
def items? : Value → Option (List Value)
  | list items => some items
  | _ => none

/-- The text of a string. -/
def str? : Value → Option String
  | str text => some text
  | _ => none

/-- Only records have fields. -/
def field? (name : String) : Value → Option Value
  | record fields => fields.lookup name
  | _ => none

/-- The text under which a value is matched against the instance of a grant. -/
def instanceText : Value → Option String
  | bool b => some (if b then "true" else "false")
  | int n => some (toString n.toInt)
  | decimal text => some text
  | str text => some text
  | null | list _ | record _ => none

mutual

/-- The values that remain when every nested list is opened, from left to right. -/
def leaves : Value → List Value
  | list items => leavesOf items
  | v => [v]
termination_by structural v => v

/-- The leaves of several values, one after the other. -/
def leavesOf : List Value → List Value
  | [] => []
  | v :: vs => leaves v ++ leavesOf vs
termination_by structural vs => vs

end

theorem leavesOf_eq_flatMap (vs : List Value) : leavesOf vs = vs.flatMap leaves := by
  induction vs with
  | nil => rfl
  | cons v vs ih => rw [leavesOf, ih, List.flatMap_cons]

@[simp] theorem leaves_list (vs : List Value) : (list vs).leaves = vs.flatMap leaves := by
  rw [leaves, leavesOf_eq_flatMap]

theorem list_cases (v : Value) : (∃ items, v = list items) ∨ v.isList = false := by
  cases v with
  | list items => left; exact ⟨items, rfl⟩
  | _ => right; rfl

theorem leaves_of_not_list {v : Value} (h : v.isList = false) : v.leaves = [v] := by
  cases v <;> simp_all [isList, leaves]

end Value

end AccessGuard
