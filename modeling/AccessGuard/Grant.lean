import AccessGuard.Text.Blank

/-!
# Grants

A grant is written `domain:action:instance`. Each part is `*` or a list of accepted values
with commas between them; white space around parts and values does not count. Parts left off
the end accept everything, so `case:view` covers every case and `*` everything at all.

* `Grant.parse`: reads a grant; the only fault is an empty value.
* `Grant.implies`: does a grant allow an action on an instance?
* `Grant.coversAction`: does it allow the action on some instance?
-/

namespace AccessGuard

/-- One part of a grant: `*`, or the values that it accepts. -/
inductive GrantPart where
  | any
  | oneOf (values : List String)
deriving DecidableEq

namespace GrantPart

/-- A list of values accepts no absent text. -/
def accepts : GrantPart → Option String → Bool
  | any, _ => true
  | oneOf values, some text => values.contains text
  | oneOf _, none => false

/-- A part without the white space around it and its values; none if a value is empty. -/
def read? (part : List Char) : Option GrantPart :=
  if trim part = ['*'] then some any
  else
    let values := ((trim part).splitOn ',').map trim
    if values.any List.isEmpty then none else some (oneOf (values.map .ofList))

end GrantPart

/-- The parts of a grant, with colons between them; none if one of them cannot be read. -/
def readParts? (text : List Char) : Option (List GrantPart) :=
  (text.splitOn ':').mapM GrantPart.read?

/-- A grant as it was written, and what it says. -/
structure Grant where
  text : String
  parts : List GrantPart
  parts_eq : readParts? text.toList = some parts
deriving DecidableEq

/-- Why a text is no grant. -/
inductive GrantError where
  | emptyPart (text : String)
deriving DecidableEq

/-- The text of an error, which names the grant that was refused. -/
def GrantError.message : GrantError → String
  | emptyPart text => s!"invalid grant '{text}': empty part"

/-- Parts against components in turn. Parts not written accept everything; the first part
beyond the components decides alone, by being `*` or not. -/
def acceptAll : List GrantPart → List (Option String) → Bool
  | [], _ => true
  | p :: _, [] => decide (p = .any)
  | p :: ps, c :: cs => p.accepts c && acceptAll ps cs

namespace Grant

/-- Reads a grant and keeps its text as it was written. -/
def parse (text : String) : Except GrantError Grant :=
  match h : readParts? text.toList with
  | some parts => .ok ⟨text, parts, h⟩
  | none => .error (.emptyPart text)

/-- Is every part `*`? -/
def isWildcard (g : Grant) : Bool := g.parts.all fun p => decide (p = .any)

/-- The instance is absent for a value without a text. -/
def implies (g : Grant) (domain action : String) (value : Option String) : Bool :=
  acceptAll g.parts [some domain, some action, value]

/-- Domain and action are held against the first two parts; what the others say does not count. -/
def coversAction (g : Grant) (domain action : String) : Bool :=
  (g.parts.zip [some domain, some action]).all fun (p, c) => p.accepts c

theorem eq_of_text_eq {g h : Grant} (ht : g.text = h.text) : g = h := by
  obtain ⟨t, ps, hp⟩ := g
  obtain ⟨u, qs, hq⟩ := h
  obtain rfl : t = u := ht
  obtain rfl : ps = qs := Option.some.inj (hp.symm.trans hq)
  rfl

end Grant

end AccessGuard
