import AccessGuard.Json.Tree
import AccessGuard.Value.Order

/-!
# Values and JSON

Every JSON value is a value; its numbers become an `int` where 64 signed bits hold them, and
otherwise a `decimal` with the canonical numeral. On the way back, the text of a decimal is
read as JSON, and is a string if it is none.

* `Value.ofJson`, `Value.toJson`: the two ways.
* `Value.display`: the compact JSON text of a value, as messages show it.
* `Value.WellFormed`: records list their fields by ascending name.
-/

namespace AccessGuard

namespace Value

/-- A number as a value. -/
def ofNumber : Number → Value
  | .integer n =>
    if -0x8000000000000000 ≤ n ∧ n < 0x8000000000000000 then int (.ofInt n)
    else decimal (.ofList (Number.integer n).text)
  | .double x => decimal (.ofList x.text)

mutual

/-- The value of a JSON value. -/
def ofJson : Json → Value
  | .null => null
  | .bool b => bool b
  | .number n => ofNumber n
  | .string s => str s
  | .array items => list (itemsOfJson items)
  | .object members => record (fieldsOfJson members)
termination_by structural j => j

/-- The values of items. -/
def itemsOfJson : List Json → List Value
  | [] => []
  | j :: js => ofJson j :: itemsOfJson js
termination_by structural js => js

/-- The fields of members. -/
def fieldsOfJson : List (String × Json) → List (String × Value)
  | [] => []
  | (k, j) :: ms => (k, ofJson j) :: fieldsOfJson ms
termination_by structural ms => ms

end

mutual

/-- The JSON value of a value. -/
def toJson : Value → Json
  | null => .null
  | bool b => .bool b
  | int n => .number (.integer n.toInt)
  | decimal text => (Json.read? text).getD (.string text)
  | str text => .string text
  | list items => .array (itemsToJson items)
  | record fields => .object (fieldsToJson fields)
termination_by structural v => v

/-- The items of values. -/
def itemsToJson : List Value → List Json
  | [] => []
  | v :: vs => toJson v :: itemsToJson vs
termination_by structural vs => vs

/-- The members of fields. -/
def fieldsToJson : List (String × Value) → List (String × Json)
  | [] => []
  | (k, v) :: fs => (k, toJson v) :: fieldsToJson fs
termination_by structural fs => fs

end

/-- The compact JSON text of a value. -/
def display (v : Value) : String := v.toJson.compact

/-- The record with these fields; of several under one name, the last counts. -/
def ofFields (fields : List (String × Value)) : Value := record (sortEntries fields)

mutual

/-- Records list their fields by ascending name, at every depth. -/
def WellFormed : Value → Prop
  | null | bool _ | int _ | decimal _ | str _ => True
  | list items => ItemsWellFormed items
  | record fields => Ascending fields ∧ FieldsWellFormed fields
termination_by structural v => v

/-- All elements are well-formed. -/
def ItemsWellFormed : List Value → Prop
  | [] => True
  | v :: vs => WellFormed v ∧ ItemsWellFormed vs
termination_by structural vs => vs

/-- The values of all fields are well-formed. -/
def FieldsWellFormed : List (String × Value) → Prop
  | [] => True
  | (_, v) :: fs => WellFormed v ∧ FieldsWellFormed fs
termination_by structural fs => fs

end

end Value

end AccessGuard
