import AccessGuard.Json.Tree

/-!
# Decoding JSON texts

A decoder takes a tree apart from left to right and stops at the first fault, whether the
text is broken there or holds something that is not wanted. A record may be written as an
object or as the array of its fields.

* `DecodeError`: the faults; `unreadable` stands for broken text and for values of a wrong
  type or length.
* `Tree.decodeText`: a decoder applied to a text; nothing may follow the value.
-/

namespace AccessGuard

/-- Why a text is not what a decoder reads. `refused` is for a text of the right type whose own
reader refuses it. -/
inductive DecodeError where
  | unreadable
  | unknownField (name : String) (expected : List String)
  | missingField (name : String)
  | duplicateField (name : String)
  | refused (reason : String)
deriving DecidableEq

/-- A list of alternatives, in words. -/
def alternatives : List String → String
  | [] => ""
  | [a] => s!"`{a}`"
  | [a, b] => s!"`{a}` or `{b}`"
  | names => "one of " ++ ", ".intercalate (names.map fun a => s!"`{a}`")

/-- No text where the fault lies in the JSON itself. -/
def DecodeError.message? : DecodeError → Option String
  | unreadable => none
  | unknownField name expected =>
    some s!"unknown field `{name}`, expected {alternatives expected}"
  | missingField name => some s!"missing field `{name}`"
  | duplicateField name => some s!"duplicate field `{name}`"
  | refused reason => some reason

namespace Tree

variable {α σ : Type}

/-- The content of a quoted text. -/
def decodeString : Tree → Except DecodeError String
  | quoted (some cs) => .ok (.ofList cs)
  | _ => .error .unreadable

/-- An integer of 64 bits without a sign; `1.0` is none. -/
def decodeIndex : Tree → Except DecodeError Nat
  | numeral n =>
    match n.toNumber? with
    | some (.integer (.ofNat i)) => .ok i
    | _ => .error .unreadable
  | _ => .error .unreadable

/-- Null or a truth value. -/
def decodeFlag? : Tree → Except DecodeError (Option Bool)
  | null => .ok none
  | bool b => .ok (some b)
  | _ => .error .unreadable

/-- All items of an array, up to the first fault. -/
def decodeItems (decode : Tree → Except DecodeError α) : List Tree → Except DecodeError (List α)
  | [] => .ok []
  | t :: ts => do
    let x ← decode t
    let xs ← decodeItems decode ts
    return x :: xs

/-- The items of an array that is closed. -/
def decodeList (decode : Tree → Except DecodeError α) : Tree → Except DecodeError (List α)
  | array items closed => do
    let xs ← decodeItems decode items
    if closed then return xs else .error .unreadable
  | _ => .error .unreadable

/-- Takes the members of a record one by one, up to the first fault. -/
def foldMembers (step : σ → String → Tree → Except DecodeError σ) (s : σ) :
    List (Option (List Char) × Tree) → Except DecodeError σ
  | [] => .ok s
  | (none, _) :: _ => .error .unreadable
  | (some name, t) :: ms => do foldMembers step (← step s (.ofList name) t) ms

/-- Members whose names are free, up to the first fault. -/
def decodeEntries (decode : Tree → Except DecodeError α) :
    List (Option (List Char) × Tree) → Except DecodeError (List (String × α))
  | [] => .ok []
  | (none, _) :: _ => .error .unreadable
  | (some name, t) :: ms => do
    let x ← decode t
    let entries ← decodeEntries decode ms
    return (.ofList name, x) :: entries

/-- The members of an object that is closed, as they stand in it. -/
def decodeMembers (decode : Tree → Except DecodeError α) :
    Tree → Except DecodeError (List (String × α))
  | object members closed => do
    let entries ← decodeEntries decode members
    if closed then return entries else .error .unreadable
  | _ => .error .unreadable

/-- A field of a record may be set once. -/
def setOnce (name : String) (earlier : Option α) (decode : Tree → Except DecodeError α)
    (t : Tree) : Except DecodeError (Option α) :=
  match earlier with
  | some _ => .error (.duplicateField name)
  | none => (decode t).map some

/-- The value of a field that has none by default. -/
def require (name : String) : Option α → Except DecodeError α
  | some x => .ok x
  | none => .error (.missingField name)

/-- A value that is not asked for has only to be closed. -/
def skip (t : Tree) : Except DecodeError Unit :=
  if t.isWhole then .ok () else .error .unreadable

/-- The next field of a record that is written as an array. -/
def nextField (decode : Tree → Except DecodeError α) :
    List Tree → Except DecodeError (α × List Tree)
  | [] => .error .unreadable
  | t :: ts => do return (← decode t, ts)

/-- The next field, or its default at the end of the array. -/
def nextFieldOr (default : α) (decode : Tree → Except DecodeError α) :
    List Tree → Except DecodeError (α × List Tree)
  | [] => .ok (default, [])
  | t :: ts => do return (← decode t, ts)

/-- Nothing may follow the last field. -/
def endFields (closed : Bool) (rest : List Tree) : Except DecodeError Unit :=
  if closed && rest.isEmpty then .ok () else .error .unreadable

/-- What a decoder makes of a text. The faults of the value come before what follows it. -/
def decodeText (decode : Tree → Except DecodeError α) (text : String) : Except DecodeError α := do
  let (t, more) := ofText text
  let x ← decode t
  if more then .error .unreadable else return x

end Tree

end AccessGuard
