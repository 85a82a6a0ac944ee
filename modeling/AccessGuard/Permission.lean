import AccessGuard.Text.Blank
import AccessGuard.Text.Cut
import AccessGuard.Text.Identifier

/-!
# Permissions

A requirement is written `domain:action:selector`. The selector begins with the identifier
under which the checked value is bound, as in `case:view:c.county`; what follows the
identifier is its path.

* `Permission.Layout.read`: where the parts stand in a text; the first two colons end domain and
  action.
* `Permission.parse`: reads a permission, whose parts are cut out of the text.
* `MalformedPermission.message`: what is wrong with a text that is no permission.
* `Permission.WellFormed`: what the parts of a permission look like.
-/

namespace AccessGuard

/-- The parts of a requirement: what is to be done, and where in the checked value. -/
structure Permission where
  domain : String
  action : String
  binding : String
  path : String
deriving DecidableEq, Inhabited

/-- A part of a permission that may not be blank. -/
inductive Segment where
  | domain
  | action
  | selector
deriving DecidableEq

/-- Why a path is no sequence of steps. -/
inductive PathFault where
  | missingName (opening : String) (rest : String)
  | unsupportedCall (name : String)
  | unexpectedInput (rest : String)
deriving DecidableEq

/-- Why a text is no permission, or not the one that is expected. -/
inductive PermissionFault where
  | missingSegments
  | emptySegment (segment : Segment)
  | invalidBinding
  | invalidSelector (fault : PathFault)
  | bindingMismatch (expected found : String)
deriving DecidableEq

/-- A text that was refused as a permission, and the cause. -/
structure MalformedPermission where
  text : String
  fault : PermissionFault
deriving DecidableEq

/-- The word for a part. -/
def Segment.name : Segment → String
  | domain => "domain"
  | action => "action"
  | selector => "selector"

/-- The text of a fault. -/
def PathFault.message : PathFault → String
  | missingName opening rest => s!"expected a field name after '{opening}' in '{rest}'"
  | unsupportedCall name => s!"unsupported call '{name}()'"
  | unexpectedInput rest => s!"unexpected input '{rest}'"

/-- The text of a fault. -/
def PermissionFault.message : PermissionFault → String
  | missingSegments => "expected 'domain:action:selector'"
  | emptySegment segment => s!"empty {segment.name} segment"
  | invalidBinding => "selector must start with an identifier"
  | invalidSelector fault => fault.message
  | bindingMismatch expected found =>
    s!"selector binds '{found}' but the target is registered as '{expected}'"

/-- The text of an error, which names the text that was refused. -/
def MalformedPermission.message (e : MalformedPermission) : String :=
  s!"malformed permission '{e.text}': {e.fault.message}"

namespace Permission

/-- The part that denials name. -/
def name (p : Permission) : String := p.domain ++ ":" ++ p.action

/-- The part that says where in the checked value. -/
def selector (p : Permission) : String := p.binding ++ p.path

/-- A permission as it is written. -/
def text (p : Permission) : String := p.name ++ ":" ++ p.selector

/-- Does a path begin with this character? -/
def startsPath (c : Char) : Bool := c == '.' || c == '*'

/-- The parts of a permission as they can be written: no blank part, no colon in domain and
action, an identifier as binding and nothing between it and the first step. -/
structure WellFormed (p : Permission) : Prop where
  domain_noColon : ':' ∉ p.domain.toList
  action_noColon : ':' ∉ p.action.toList
  domain_notBlank : allBlank p.domain.toList = false
  action_notBlank : allBlank p.action.toList = false
  binding_isIdentifier : isIdentifier p.binding.toList = true
  path_starts : ∀ c ∈ p.path.toList.head?, startsPath c = true

/-- A permission as it is kept: its text, and where its parts stand in it, counted in bytes. The
action and the selector begin at a position, and the binding is the first bytes of the selector. -/
structure Layout where
  text : String
  actionAt : Nat
  selectorAt : Nat
  bindingLength : Nat
deriving DecidableEq

/-- The text between two positions, counted in bytes. -/
def slice (text : String) (first last : Nat) : String :=
  String.Pos.Raw.extract text ⟨first⟩ ⟨last⟩

namespace Layout

/-- Domain and action end before the colon that stands in front of the next part. -/
def domain (l : Layout) : String := slice l.text 0 (l.actionAt - 1)

/-- The action ends before the colon that stands in front of the selector. -/
def action (l : Layout) : String := slice l.text l.actionAt (l.selectorAt - 1)

/-- The selector goes to the end of the text. -/
def selector (l : Layout) : String := slice l.text l.selectorAt l.text.utf8ByteSize

/-- The identifier at the beginning of the selector. -/
def binding (l : Layout) : String := slice l.selector 0 l.bindingLength

/-- What follows the identifier. -/
def path (l : Layout) : String := slice l.selector l.bindingLength l.selector.utf8ByteSize

/-- Domain and action with the colon between them. -/
def name (l : Layout) : String := slice l.text 0 (l.selectorAt - 1)

/-- The parts, cut out of the text. -/
def permission (l : Layout) : Permission := ⟨l.domain, l.action, l.binding, l.path⟩

/-- The layout of a text that was cut at its colons, and of which the selector was cut where its
path begins. -/
def ofCuts (text domain action binding : String) : Layout :=
  let actionAt := domain.utf8ByteSize + 1
  { text := text
    actionAt := actionAt
    selectorAt := actionAt + action.utf8ByteSize + 1
    bindingLength := binding.utf8ByteSize }

/-- Blank segments are reported from left to right, and before a binding that is no
identifier. -/
def read (text : String) : Except MalformedPermission Layout :=
  let refuse fault := .error ⟨text, fault⟩
  match cutAt ':' text.toList with
  | none => refuse .missingSegments
  | some (domain, rest) =>
    match cutAt ':' rest with
    | none => refuse .missingSegments
    | some (action, selector) =>
      let binding := selector.takeWhile fun c => !startsPath c
      if allBlank domain then refuse (.emptySegment .domain)
      else if allBlank action then refuse (.emptySegment .action)
      else if allBlank selector then refuse (.emptySegment .selector)
      else if isIdentifier binding then
        .ok (ofCuts text (.ofList domain) (.ofList action) (.ofList binding))
      else refuse .invalidBinding

end Layout

/-- The permission of a text. -/
def parse (text : String) : Except MalformedPermission Permission :=
  (Layout.read text).map Layout.permission

end Permission

end AccessGuard
