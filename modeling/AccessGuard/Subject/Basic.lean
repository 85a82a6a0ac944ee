import AccessGuard.CandidateSet
import AccessGuard.Permission
import AccessGuard.Uuid

/-!
# Subjects

The side of a check that knows what the caller may do. A subject is asked about one value, or
about a set of candidates from which it may take some away. It may keep a state and need not
answer twice alike; nothing is assumed about the set that it leaves behind.

* `Subject`: both questions, as functions of the state.
* `Denial`: a refusal, which names domain and action.
-/

namespace AccessGuard

/-- A refusal: what was refused, by domain and action, and why. -/
structure Denial where
  permission : String
  reason : String
deriving DecidableEq

/-- The text of a denial. -/
def Denial.message (d : Denial) : String := s!"access denied for '{d.permission}': {d.reason}"

/-- A refusal of this permission. -/
def Permission.deny (p : Permission) (reason : String) : Denial := ⟨p.name, reason⟩

/-- What a subject reports on its own while it answers. -/
inductive Notice where
  | narrowed (principal : Uuid) (permission : String) (before after : Nat)
deriving DecidableEq

/-- The answer about one value. -/
structure Judgement (σ : Type) where
  verdict : Except Denial Unit
  notices : List Notice
  state : σ

/-- The answer about candidates, with the set that is left. -/
structure Narrowing (σ : Type) where
  verdict : Except Denial Unit
  left : CandidateSet
  notices : List Notice
  state : σ

/-- Whoever answers for the caller, about one value and about a set of candidates. -/
structure Subject (σ : Type) where
  judge : Permission → Value → σ → Judgement σ
  narrow : Permission → CandidateSet → σ → Narrowing σ

end AccessGuard
