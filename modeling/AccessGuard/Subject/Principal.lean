import AccessGuard.RolePolicy
import AccessGuard.Subject.Basic
import AccessGuard.Value.Json

/-!
# The subject of a principal

A principal may do what its effective grants imply. A value passes if a grant implies it; of
candidates, those that a grant implies are left. Where no grant covers domain and action at
all, a set of candidates is refused as a whole.

* `PrincipalSubject.toSubject`: the answers.
* `PrincipalSubject.explain`: the answer about a value, with the reason, for an audit.
-/

namespace AccessGuard

/-- A principal with its effective grants, in order. -/
structure PrincipalSubject where
  id : Uuid
  grants : List Grant
deriving DecidableEq

/-- Why a value is granted or not. -/
structure Explanation where
  principal : Uuid
  permission : String
  value : String
  granted : Bool
  matched : Option String
  reason : String
  effectiveGrants : List String
deriving DecidableEq

namespace PrincipalSubject

/-- The subject of a principal under a role policy. -/
def of (p : Principal) (policy : RolePolicy) : PrincipalSubject := ⟨p.id, policy.effective p⟩

/-- The first grant that implies the permission on a value. -/
def matching? (s : PrincipalSubject) (p : Permission) (v : Value) : Option Grant :=
  s.grants.find? fun g => g.implies p.domain p.action v.instanceText

/-- Does a grant imply the permission on a value? -/
def allows (s : PrincipalSubject) (p : Permission) (v : Value) : Bool := (s.matching? p v).isSome

/-- Could the permission be held for some value? -/
def covers (s : PrincipalSubject) (p : Permission) : Bool :=
  s.grants.any fun g => g.coversAction p.domain p.action

variable {σ : Type}

/-- The answer about one value. The principal and the value are named in a denial. -/
def judge (s : PrincipalSubject) (p : Permission) (v : Value) (state : σ) : Judgement σ where
  verdict :=
    if s.allows p v then .ok ()
    else .error (p.deny s!"principal {s.id.text} may not access {v.display}")
  notices := []
  state := state

/-- Only a set that became smaller is worth a notice. -/
def narrow (s : PrincipalSubject) (p : Permission) (candidates : CandidateSet) (state : σ) :
    Narrowing σ :=
  if s.covers p then
    let left := candidates.retain (s.allows p)
    { verdict := .ok ()
      left := left
      notices :=
        if left.size = candidates.size then []
        else [.narrowed s.id p.name candidates.size left.size]
      state := state }
  else
    { verdict := .error (p.deny s!"principal {s.id.text} holds no grant for it")
      left := candidates
      notices := []
      state := state }

/-- A principal as a subject; it keeps no state. -/
def toSubject (s : PrincipalSubject) : Subject σ := ⟨s.judge, s.narrow⟩

/-- The grants are listed in ascending order, whatever their order in effect. -/
def explain (s : PrincipalSubject) (p : Permission) (v : Value) : Explanation where
  principal := s.id
  permission := p.name
  value := v.display
  granted := s.allows p v
  matched := (s.matching? p v).map Grant.text
  reason :=
    match s.matching? p v with
    | some g =>
      if g.isWildcard then "principal holds the wildcard grant '*'" else s!"granted by '{g.text}'"
    | none =>
      if v.instanceText.isNone then
        s!"a {v.kind.name} value only matches a grant with a wildcard instance"
      else s!"no grant implies '{p.name}:{v.display}'"
  effectiveGrants := (s.grants.map Grant.text).mergeSort fun a b => (compare a b).isLE

end PrincipalSubject

end AccessGuard
