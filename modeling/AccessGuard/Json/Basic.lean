import AccessGuard.Number.Numeral
import AccessGuard.Table

/-!
# JSON

A JSON value, and the compact text in which it is written: members by ascending name, no
white space, and only those characters escaped that have to be.

* `Json.ofMembers`: an object from members in any order; of one name the last member counts.
* `Json.compact`: the text of a value.
-/

namespace AccessGuard

/-- A JSON value. -/
inductive Json where
  | null
  | bool (b : Bool)
  | number (n : Number)
  | string (s : String)
  | array (items : List Json)
  | object (members : List (String × Json))
deriving Inhabited

namespace Json

/-- The object with these members; of several under one name, the last counts. -/
def ofMembers (members : List (String × Json)) : Json := object (sortEntries members)

/-- A count as a JSON number. -/
def ofNat (n : Nat) : Json := number (.integer n)

/-- The character after the backslash, for the controls that have one of their own. -/
def shortEscapes : List (Char × Char) :=
  [('"', '"'), ('\\', '\\'), ('\x08', 'b'), ('\x0c', 'f'), ('\n', 'n'), ('\r', 'r'), ('\t', 't')]

/-- A character inside quotes. Controls without a short escape are written with four
hexadecimal digits in lower case; everything else stands for itself. -/
def escape (c : Char) : List Char :=
  match shortEscapes.lookup c with
  | some e => ['\\', e]
  | none =>
    if c.toNat < 0x20 then
      ['\\', 'u', '0', '0', Nat.digitChar (c.toNat / 16), Nat.digitChar (c.toNat % 16)]
    else [c]

/-- A text in quotes. -/
def quote (s : String) : List Char := '"' :: s.toList.flatMap escape ++ ['"']

mutual

/-- The characters of the compact text. -/
def write : Json → List Char
  | null => "null".toList
  | bool true => "true".toList
  | bool false => "false".toList
  | number n => n.text
  | string s => quote s
  | array [] => "[]".toList
  | array (j :: js) => '[' :: write j ++ writeItems js ++ [']']
  | object [] => ['\x7b', '\x7d']
  | object ((k, j) :: ms) => '\x7b' :: quote k ++ ':' :: write j ++ writeMembers ms ++ ['\x7d']
termination_by structural j => j

/-- Further items, each after a comma. -/
def writeItems : List Json → List Char
  | [] => []
  | j :: js => ',' :: write j ++ writeItems js
termination_by structural js => js

/-- Further members, each after a comma. -/
def writeMembers : List (String × Json) → List Char
  | [] => []
  | (k, j) :: ms => ',' :: quote k ++ ':' :: write j ++ writeMembers ms
termination_by structural ms => ms

end

/-- The text of a value, without white space. -/
def compact (j : Json) : String := .ofList j.write

end Json

end AccessGuard
