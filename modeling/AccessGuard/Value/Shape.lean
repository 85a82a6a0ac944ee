import AccessGuard.Json.Decode
import AccessGuard.Number.Nearest
import AccessGuard.Value.Json

/-!
# Typed views of values

A shape says what a typed reader makes of a JSON value: the value in normal form, with
defaults filled in, or the reason why it does not fit. In the other direction a few kinds of
typed data have values of their own.

* `Value.conform`: a value read through a shape.
* `Value.ofEntries?`: a map, if all of its keys have a text.
-/

namespace AccessGuard

/-- The normal form of the JSON values of a type. -/
abbrev Shape := Json → Except DecodeError Json

namespace Shape

/-- Integers between two bounds. -/
def integer (least greatest : Int) : Shape
  | .number (.integer n) =>
    if least ≤ n ∧ n ≤ greatest then .ok (.number (.integer n)) else .error .unreadable
  | _ => .error .unreadable

/-- Truth values. -/
def bool : Shape
  | .bool b => .ok (.bool b)
  | _ => .error .unreadable

/-- Texts. -/
def string : Shape
  | .string s => .ok (.string s)
  | _ => .error .unreadable

/-- Null alone. -/
def unit : Shape
  | .null => .ok .null
  | _ => .error .unreadable

/-- Null or a value of the shape. -/
def option (s : Shape) : Shape
  | .null => .ok .null
  | j => s j

/-- Items in turn, all of one shape, up to the first that does not fit. -/
def conformAll (s : Shape) : List Json → Except DecodeError (List Json)
  | [] => .ok []
  | j :: js => do
    let x ← s j
    let xs ← conformAll s js
    return x :: xs

/-- Lists of one shape. -/
def list (s : Shape) : Shape
  | .array items => do return .array (← conformAll s items)
  | _ => .error .unreadable

/-- Members in turn, their values all of one shape, up to the first that does not fit. -/
def conformMembers (s : Shape) : List (String × Json) → Except DecodeError (List (String × Json))
  | [] => .ok []
  | (k, j) :: ms => do
    let x ← s j
    let xs ← conformMembers s ms
    return (k, x) :: xs

/-- Any members, all of one shape. -/
def mapping (s : Shape) : Shape
  | .object members => do return .object (← conformMembers s members)
  | _ => .error .unreadable

/-- What a record without the field stands for. Only a field with a default may be left off the
end of a record written as an array. -/
inductive Absence where
  | refused
  | null
  | default (j : Json)

/-- A field of a record. -/
structure Field where
  name : String
  shape : Shape
  absence : Absence

/-- The members that are fields, each in its shape; others are not looked at. -/
def conformFields (fields : List Field) :
    List (String × Json) → Except DecodeError (List (String × Json))
  | [] => .ok []
  | (k, j) :: ms =>
    match fields.find? (·.name == k) with
    | none => conformFields fields ms
    | some f => do
      let x ← f.shape j
      let xs ← conformFields fields ms
      return (k, x) :: xs

/-- All fields in their order, those that are not there by their absence. -/
def fillFields (found : List (String × Json)) :
    List Field → Except DecodeError (List (String × Json))
  | [] => .ok []
  | f :: fs => do
    let x ← match found.lookup f.name, f.absence with
      | some x, _ => .ok x
      | none, .refused => .error (.missingField f.name)
      | none, .null => .ok .null
      | none, .default j => .ok j
    let xs ← fillFields found fs
    return (f.name, x) :: xs

/-- Fields by position. -/
def conformItems : List Field → List Json → Except DecodeError (List (String × Json))
  | [], [] => .ok []
  | [], _ :: _ => .error .unreadable
  | f :: fs, [] =>
    match f.absence with
    | .default j => do return (f.name, j) :: (← conformItems fs [])
    | _ => .error .unreadable
  | f :: fs, j :: js => do
    let x ← f.shape j
    let xs ← conformItems fs js
    return (f.name, x) :: xs

/-- Records with these fields, written as an object or as the array of the fields. -/
def record (fields : List Field) : Shape
  | .object members => do
    let found ← conformFields fields members
    return .ofMembers (← fillFields found fields)
  | .array items => do return .ofMembers (← conformItems fields items)
  | _ => .error .unreadable

/-- Integers of 64 bits with a sign. -/
def int64 : Shape := integer (-0x8000000000000000) 0x7fffffffffffffff

/-- Integers of `bits` bits without a sign. -/
def natural (bits : Nat) : Shape := integer 0 (Nat.pow 2 bits - 1)

/-- A case as it is filed: its number and county, its tags, and whether it is closed. -/
def filedCase : Shape := record [
  ⟨"id", natural 32, .refused⟩,
  ⟨"county", string, .refused⟩,
  ⟨"tags", list string, .default (.array [])⟩,
  ⟨"closed", option bool, .null⟩]

end Shape

/-- Why data and values could not be converted into each other. -/
inductive ConversionError where
  | decode (e : DecodeError)
  | keyWithoutText
deriving DecidableEq

/-- The text of an error, as far as it is not the reader's own. -/
def ConversionError.message? : ConversionError → Option String
  | decode e => e.message?.map ("value conversion failed: " ++ ·)
  | keyWithoutText => some "value conversion failed: key must be a string"

namespace Value

/-- A value in the normal form of a shape. -/
def conform (s : Shape) (v : Value) : Except ConversionError Value :=
  match s v.toJson with
  | .ok j => .ok (ofJson j)
  | .error e => .error (.decode e)

/-- An integer as a value. -/
def ofInteger (n : Int) : Value := ofNumber (.integer n)

/-- Null for what is not finite. -/
def ofDouble? : Option Double → Value
  | some x => ofNumber (.double x)
  | none => null

/-- Null for what is absent. -/
def ofText? : Option String → Value
  | some text => str text
  | none => null

/-- The key of an entry of a map. -/
inductive Key where
  | integer (n : Int)
  | texts (ts : List String)

/-- Integers become names of fields; lists have no text. -/
def Key.text? : Key → Option String
  | integer n => some (.ofList (Number.integer n).text)
  | texts _ => none

/-- A record with the texts of the keys as names. -/
def ofEntries? (entries : List (Key × Value)) : Except ConversionError Value :=
  match entries.mapM fun (k, v) => k.text?.map (·, v) with
  | some fields => .ok (ofFields fields)
  | none => .error .keyWithoutText

end Value

end AccessGuard
