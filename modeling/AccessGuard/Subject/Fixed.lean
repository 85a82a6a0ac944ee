import AccessGuard.Subject.Basic

/-!
# Subjects with fixed answers

Subjects that know no principal: for applications with a static rule, and for trying how a
guard deals with subjects that do not only remove candidates.
-/

namespace AccessGuard

namespace Subject

variable {σ : Type}

/-- Allows the given values for the given actions; what is not given does not restrict. -/
def allow (actions : Option (List String)) (values : Option CandidateSet) : Subject σ :=
  let allowed (p : Permission) (v : Value) : Bool :=
    actions.all (·.contains p.action) && values.all (·.contains v)
  { judge := fun p v s => ⟨if allowed p v then .ok () else .error (p.deny "no"), [], s⟩
    narrow := fun p candidates s => ⟨.ok (), candidates.retain (allowed p), [], s⟩ }

/-- Leaves the same set behind, whatever the candidates are. -/
def replaceWith (values : CandidateSet) : Subject σ where
  judge := fun _ _ s => ⟨.ok (), [], s⟩
  narrow := fun _ _ s => ⟨.ok (), values, [], s⟩

/-- Refuses everything, for one reason. -/
def deny (reason : String) : Subject σ where
  judge := fun p _ s => ⟨.error (p.deny reason), [], s⟩
  narrow := fun p candidates s => ⟨.error (p.deny reason), candidates, [], s⟩

/-- Takes the least candidate away. -/
def dropLeast : Subject σ where
  judge := fun _ _ s => ⟨.ok (), [], s⟩
  narrow := fun _ candidates s =>
    let left := match candidates.members with
      | [] => candidates
      | v :: _ => candidates.remove v
    ⟨.ok (), left, [], s⟩

end Subject

end AccessGuard
