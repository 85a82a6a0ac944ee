import AccessGuard.Json.Basic
import AccessGuard.Json.Token

/-!
# The tree of a JSON text

A text is read into a tree of tokens, member by member, with nothing decided about repeated
names, numbers out of range or unpaired escapes. Where the text breaks off or goes wrong, the
tree ends: the open arrays and objects are marked as not closed and a member without a value
has a `broken` one. So whoever takes a tree apart from left to right meets the faults of the
text in their order.

* `Tree.ofTokens`: the tree at the beginning of the tokens, and whether more tokens follow.
* `Tree.toJson?`: the JSON value of a tree without faults.
* `Json.read?`: the JSON value of a text.
-/

namespace AccessGuard

/-- What could be read of a JSON value. A name without content is that of a quoted text with
an unpaired escape. -/
inductive Tree where
  | broken
  | null
  | bool (b : Bool)
  | numeral (n : Numeral)
  | quoted (content : Option (List Char))
  | array (items : List Tree) (closed : Bool)
  | object (members : List (Option (List Char) × Tree)) (closed : Bool)
deriving Inhabited

namespace Tree

/-- An array or object that is still open, with what it holds so far, the latest first. -/
inductive Frame where
  | items (done : List Tree)
  | members (done : List (Option (List Char) × Tree))
  | member (done : List (Option (List Char) × Tree)) (name : Option (List Char))

/-- What the next token has to be. -/
inductive Mode where
  | value
  | firstItem
  | firstName
  | name
  | colon
  | afterValue

/-- The reader between two tokens, or the finished tree. -/
inductive State where
  | reading (mode : Mode) (stack : List Frame)
  | done (tree : Tree)

/-- A value is complete: it goes into the innermost open array or object. -/
def complete (t : Tree) : List Frame → Option State
  | [] => some (.done t)
  | .items done :: stack => some (.reading .afterValue (.items (t :: done) :: stack))
  | .member done name :: stack =>
    some (.reading .afterValue (.members ((name, t) :: done) :: stack))
  | .members _ :: _ => none

/-- The first token of a value. -/
def beginValue (stack : List Frame) : Token → Option State
  | .null => complete .null stack
  | .bool b => complete (.bool b) stack
  | .numeral n => complete (.numeral n) stack
  | .quoted content => complete (.quoted content) stack
  | .openArray => some (.reading .firstItem (.items [] :: stack))
  | .openObject => some (.reading .firstName (.members [] :: stack))
  | _ => none

/-- The name of a member. -/
def beginName (stack : List Frame) : Token → Option State
  | .quoted name =>
    match stack with
    | .members done :: stack => some (.reading .colon (.member done name :: stack))
    | _ => none
  | _ => none

/-- One token further; none where the token does not fit. -/
def step : Mode → List Frame → Token → Option State
  | .firstItem, .items done :: stack, .closeArray => complete (.array done.reverse true) stack
  | .value, stack, t | .firstItem, stack, t => beginValue stack t
  | .firstName, .members done :: stack, .closeObject =>
    complete (.object done.reverse true) stack
  | .name, stack, t | .firstName, stack, t => beginName stack t
  | .colon, stack, .colon => some (.reading .value stack)
  | .afterValue, .items done :: stack, .comma => some (.reading .value (.items done :: stack))
  | .afterValue, .items done :: stack, .closeArray =>
    complete (.array done.reverse true) stack
  | .afterValue, .members done :: stack, .comma =>
    some (.reading .name (.members done :: stack))
  | .afterValue, .members done :: stack, .closeObject =>
    complete (.object done.reverse true) stack
  | _, _, _ => none

/-- What there is when the text goes no further: every open array or object is left unclosed
around the value so far. -/
def abandon (inner : Option Tree) : List Frame → Tree
  | [] => inner.getD .broken
  | .items done :: stack => abandon (some (.array (inner.toList ++ done).reverse false)) stack
  | .members done :: stack => abandon (some (.object done.reverse false)) stack
  | .member done name :: stack =>
    abandon (some (.object ((name, inner.getD .broken) :: done).reverse false)) stack

/-- Reads on to the end of the value; also tells whether tokens are left over. -/
def run : State → List Token → Tree × Bool
  | .done t, ts => (t, !ts.isEmpty)
  | .reading _ stack, [] => (abandon none stack, false)
  | .reading mode stack, t :: ts =>
    match step mode stack t with
    | some state => run state ts
    | none => (abandon none stack, false)

/-- The tree at the beginning of the tokens; also tells whether tokens are left over. -/
def ofTokens (ts : List Token) : Tree × Bool := run (.reading .value []) ts

/-- The tree at the beginning of a text; also tells whether something follows it. -/
def ofText (text : String) : Tree × Bool := ofTokens (Token.all text.toList)

/-- A JSON value may be nested this deep. -/
def depthLimit : Nat := 127

mutual

/-- The JSON value of a tree, if it has no faults and is nested no deeper than the limit. Of
several members under one name, the last counts. -/
def toJson? : Nat → Tree → Option Json
  | _, broken => none
  | _, null => some .null
  | _, bool b => some (.bool b)
  | _, numeral n => n.toNumber?.map .number
  | _, quoted content => content.map fun cs => .string (.ofList cs)
  | depth, array items closed =>
    match depth with
    | 0 => none
    | depth + 1 => if closed then (itemsToJson? depth items).map .array else none
  | depth, object members closed =>
    match depth with
    | 0 => none
    | depth + 1 => if closed then (membersToJson? depth members).map .ofMembers else none
termination_by structural _ t => t

/-- The values of the items, if all of them have one. -/
def itemsToJson? (depth : Nat) : List Tree → Option (List Json)
  | [] => some []
  | t :: ts =>
    match toJson? depth t, itemsToJson? depth ts with
    | some j, some js => some (j :: js)
    | _, _ => none
termination_by structural ts => ts

/-- The members with their values, if all of them have a name and a value. -/
def membersToJson? (depth : Nat) :
    List (Option (List Char) × Tree) → Option (List (String × Json))
  | [] => some []
  | (name, t) :: ms =>
    match name, toJson? depth t, membersToJson? depth ms with
    | some cs, some j, some js => some ((.ofList cs, j) :: js)
    | _, _, _ => none
termination_by structural ms => ms

end

mutual

/-- Is the value closed all the way down? Numbers and quoted texts may have no meaning. -/
def isWhole : Tree → Bool
  | broken => false
  | null | bool _ | numeral _ | quoted _ => true
  | array items closed => closed && itemsAreWhole items
  | object members closed => closed && membersAreWhole members
termination_by structural t => t

/-- Are all items closed all the way down? -/
def itemsAreWhole : List Tree → Bool
  | [] => true
  | t :: ts => isWhole t && itemsAreWhole ts
termination_by structural ts => ts

/-- Are the values of all members closed all the way down? -/
def membersAreWhole : List (Option (List Char) × Tree) → Bool
  | [] => true
  | (_, t) :: ms => isWhole t && membersAreWhole ms
termination_by structural ms => ms

end

end Tree

/-- The value of a JSON text, which may have nothing but white space around it. -/
def Json.read? (text : String) : Option Json :=
  match Tree.ofText text with
  | (t, false) => t.toJson? Tree.depthLimit
  | (_, true) => none

end AccessGuard
