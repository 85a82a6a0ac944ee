import AccessGuard.Json.Decode
import AccessGuard.Text.Blank

/-!
# Security configuration

Whether authorization is enforced. Enforcement is on unless a source says otherwise, and a
source that cannot be understood is an error and never a reason to fall back to a default.

* `SecurityConfig.ofText`: the configuration of a JSON document.
* `SecurityConfig.ofSetting`: that of a variable, which may be absent.
* `SecurityConfig.ofLookup`: that of the variable among the settings of a program.
-/

namespace AccessGuard

/-- What a source says about enforcement, if it says anything. -/
structure SecurityConfig where
  authorizationEnabled : Option Bool
deriving DecidableEq

/-- Why a source cannot be understood: a setting that is no word for on or off, or a document. -/
inductive ConfigError where
  | invalidValue (value : String)
  | parse (e : DecodeError)
deriving DecidableEq

namespace SecurityConfig

/-- The variable that settings are looked up under. -/
def variableName : String := "WARDEN_AUTHORIZATION_ENABLED"

end SecurityConfig

/-- The text of an error, as far as it is not the reader's own. -/
def ConfigError.message? : ConfigError → Option String
  | invalidValue value => some s!"invalid value '{value}' for {SecurityConfig.variableName}"
  | parse e => e.message?.map ("invalid security configuration: " ++ ·)

namespace SecurityConfig

/-- Nothing is said: enforcement is on. -/
def unset : SecurityConfig := ⟨none⟩

/-- Enforcement is said to be on. -/
def enabled : SecurityConfig := ⟨some true⟩

/-- Enforcement is said to be off. -/
def disabled : SecurityConfig := ⟨some false⟩

/-- Enforcement is on unless it is said to be off. -/
def isEnabled (c : SecurityConfig) : Bool := c.authorizationEnabled.getD true

/-- Words for on and off, in any case of ASCII, with white space around them. -/
def readFlag? (text : String) : Option Bool :=
  let word := String.ofList ((trim text.toList).map Char.toLower)
  if word ∈ ["true", "1", "yes", "on"] then some true
  else if word ∈ ["false", "0", "no", "off"] then some false
  else none

/-- Only an absent setting leaves the default. -/
def ofSetting : Option String → Except ConfigError SecurityConfig
  | none => .ok unset
  | some text =>
    match readFlag? text with
    | some b => .ok ⟨some b⟩
    | none => .error (.invalidValue text)

/-- Only one variable is looked at. -/
def ofLookup (lookup : String → Option String) : Except ConfigError SecurityConfig :=
  ofSetting (lookup variableName)

/-- What has been read of the field: nothing, or a value which may be null. -/
def decodeField (found : Option (Option Bool)) (name : String) (t : Tree) :
    Except DecodeError (Option (Option Bool)) :=
  if name = "authorization_enabled" then Tree.setOnce name found Tree.decodeFlag? t
  else .error (.unknownField name ["authorization_enabled"])

/-- The field may be left out; of a record written as an array it is the only item. -/
def decode : Tree → Except DecodeError SecurityConfig
  | .object members closed => do
    let found ← Tree.foldMembers decodeField none members
    if closed then return ⟨found.getD none⟩ else .error .unreadable
  | .array items closed => do
    let (flag, items) ← Tree.nextFieldOr none Tree.decodeFlag? items
    Tree.endFields closed items
    return ⟨flag⟩
  | _ => .error .unreadable

/-- The configuration of a document. -/
def ofText (text : String) : Except ConfigError SecurityConfig :=
  match Tree.decodeText decode text with
  | .ok c => .ok c
  | .error e => .error (.parse e)

/-- The stored form, in which nothing said is null. -/
def toJson (c : SecurityConfig) : Json :=
  .object [("authorization_enabled", match c.authorizationEnabled with
    | some b => .bool b
    | none => .null)]

end SecurityConfig

end AccessGuard
