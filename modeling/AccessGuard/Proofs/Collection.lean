import AccessGuard.Guard.Check
import AccessGuard.Proofs.Projection

/-!
# The check of a collection, with and without its shortcut

A collection is filtered only if the subject left fewer of its candidates than there were, and
whether it did is read off the size of a set. The plain procedure compares nothing: it keeps the
elements whose projection is a candidate and is left by the subject, and it has no second
failure. Both end alike, whatever the subject does with the set.

* `checkCollection_cases`: the three ends of a check of a collection.
* `checkCollection_eq_plain`: verdict, collection, state and questions are those of the plain
  procedure.
-/

namespace AccessGuard

variable {τ : Type}

/-- The elements whose projection is among the candidates and among those that are left. -/
def survivors (s : Selector) (candidates left : CandidateSet) (items : List Value) : List Value :=
  items.filter fun v => s.retains candidates v && s.retains left v

/-- The effects of asking about candidates. -/
def askEffects (subject : Subject τ) (p : Permission) (candidates : CandidateSet) (state : τ) :
    List Effect :=
  let answer := subject.narrow p candidates state
  answer.notices.map .noticed ++ [.narrowed p candidates answer.left answer.verdict.isOk]

/-- What is logged of a list whose check succeeded: nothing, if all of its candidates are left. -/
def narrowingEvents (r : Requirement) (candidates left : CandidateSet) (items : List Value) :
    List GuardEvent :=
  let kept := left.retain candidates.contains
  if kept.size = candidates.size then []
  else [.collectionNarrowed r.permission.text candidates.size kept.size
    (items.length - (survivors r.selector candidates left items).length)]

/-- One requirement on a list, by the plain procedure. -/
def plainCheck (subject : Subject τ) (r : Requirement) (items : List Value) (state : τ) :
    Run τ (Checked (List Value)) :=
  match r.selector.project items with
  | .error e => ⟨⟨.error (.evaluation e), items⟩, [], state⟩
  | .ok candidates =>
    let answer := subject.narrow r.permission candidates state
    let result := match answer.verdict with
      | .error d => ⟨.error (.denied d), items⟩
      | .ok _ => ⟨.ok (), survivors r.selector candidates answer.left items⟩
    ⟨result, askEffects subject r.permission candidates state, answer.state⟩

variable {s : Selector} {items : List Value} {candidates left : CandidateSet}

/-! ## Survivors -/

/-- The survivors are the elements that stay when the set is cut down to the candidates. -/
theorem survivors_eq_filter :
    survivors s candidates left items =
      items.filter (s.retains (left.retain candidates.contains)) := by
  unfold survivors
  apply List.filter_congr
  intro v _
  rw [Selector.retains_retain, Bool.and_comm]

/-- **The shortcut is sound.** A set that keeps its size when cut down to the candidates has
all of them, so every element survives. -/
theorem survivors_of_size_eq (h : s.project items = .ok candidates)
    (hsize : (left.retain candidates.contains).size = candidates.size) :
    survivors s candidates left items = items := by
  rw [CandidateSet.retain_contains_comm] at hsize
  rw [survivors_eq_filter, CandidateSet.retain_contains_comm,
    CandidateSet.retain_eq_self hsize, Selector.filter_retains_self h]

/-- The candidates that survive are those that the subject left. -/
theorem project_survivors (h : s.project items = .ok candidates) :
    s.project (survivors s candidates left items) = .ok (left.retain candidates.contains) := by
  rw [survivors_eq_filter, Selector.project_filter h]
  congr 1
  apply CandidateSet.ext_mem
  intro v
  simp only [CandidateSet.mem_retain, CandidateSet.contains_eq_true]
  exact ⟨fun hv => hv.1, fun hv => ⟨hv, hv.2⟩⟩

/-! ## The two procedures -/

section Procedures

variable (subject : Subject τ) (r : Requirement) (state : τ)

theorem checkCollection_of_unprojected {e : EvaluationError}
    (h : r.selector.project items = .error e) :
    checkCollection subject r items state = ⟨⟨.error (.evaluation e), items⟩, [], state⟩ := by
  unfold checkCollection
  rw [h]

/-- A refusal leaves the list as it is, whatever the subject did to the set before. -/
theorem checkCollection_of_refused {d : Denial} (h : r.selector.project items = .ok candidates)
    (hv : (subject.narrow r.permission candidates state).verdict = .error d) :
    checkCollection subject r items state =
      ⟨⟨.error (.denied d), items⟩, askEffects subject r.permission candidates state,
        (subject.narrow r.permission candidates state).state⟩ := by
  unfold checkCollection askEffects
  simp only [h, hv]

/-- The candidates are known and the subject agrees: all survivors stay, and an event is logged
if some candidates are gone. -/
theorem checkCollection_of_agreed (h : r.selector.project items = .ok candidates)
    (hv : (subject.narrow r.permission candidates state).verdict = .ok ()) :
    checkCollection subject r items state =
      let answer := subject.narrow r.permission candidates state
      ⟨⟨.ok (), survivors r.selector candidates answer.left items⟩,
        askEffects subject r.permission candidates state ++
          (narrowingEvents r candidates answer.left items).map .logged,
        answer.state⟩ := by
  unfold checkCollection askEffects narrowingEvents
  simp only [h, hv]
  split
  · rename_i hsize
    rw [survivors_of_size_eq h hsize, List.map_nil, List.append_nil]
  · rw [Selector.filter_eq h, ← survivors_eq_filter]
    rfl

/-- **The three ends of a check of a collection**: an element leads nowhere, the subject
refuses, or the survivors stay. -/
theorem checkCollection_cases (items : List Value) :
    (∃ e, r.selector.project items = .error e ∧
      checkCollection subject r items state = ⟨⟨.error (.evaluation e), items⟩, [], state⟩) ∨
    ∃ candidates, r.selector.project items = .ok candidates ∧
      let answer := subject.narrow r.permission candidates state
      let asked := askEffects subject r.permission candidates state
      ((∃ d, answer.verdict = .error d ∧ checkCollection subject r items state =
        ⟨⟨.error (.denied d), items⟩, asked, answer.state⟩) ∨
      (answer.verdict = .ok () ∧ ∃ events : List GuardEvent,
        checkCollection subject r items state =
          ⟨⟨.ok (), survivors r.selector candidates answer.left items⟩,
            asked ++ events.map .logged, answer.state⟩)) := by
  cases h : r.selector.project items with
  | error e => left; exact ⟨e, rfl, checkCollection_of_unprojected subject r state h⟩
  | ok candidates =>
    right
    refine ⟨candidates, rfl, ?_⟩
    dsimp only
    cases hv : (subject.narrow r.permission candidates state).verdict with
    | error d => left; exact ⟨d, rfl, checkCollection_of_refused subject r state h hv⟩
    | ok _ => right; exact ⟨rfl, _, checkCollection_of_agreed subject r state h hv⟩

/-- **The check of a collection ends as the plain procedure does.** The collection is changed
only when the requirement is met; then its candidates are those that the subject left of the
candidates before. After the subject has agreed nothing can fail: whatever it left, the second
pass over the collection succeeds. -/
theorem checkCollection_eq_plain (items : List Value) :
    let run := checkCollection subject r items state
    let plain := plainCheck subject r items state
    run.result = plain.result ∧ run.state = plain.state ∧
      (∃ events : List GuardEvent, run.effects = plain.effects ++ events.map .logged) ∧
      (∀ e, run.result.verdict = .error e → run.result.value = items) ∧
      ∀ candidates, r.selector.project items = .ok candidates →
        let answer := subject.narrow r.permission candidates state
        (∀ left, ∃ rest, r.selector.filter items left = .ok rest) ∧
        (answer.verdict = .ok () →
          run.result.verdict = .ok () ∧
          run.result.value = survivors r.selector candidates answer.left items ∧
          r.selector.project run.result.value =
            .ok (answer.left.retain candidates.contains)) := by
  dsimp only
  unfold plainCheck
  rcases checkCollection_cases subject r state items with
    ⟨e, hp, he⟩ | ⟨candidates, hp, ⟨d, hv, he⟩ | ⟨hv, events, he⟩⟩ <;> rw [he, hp] <;>
    dsimp only
  · refine ⟨rfl, rfl, ⟨[], rfl⟩, fun _ _ => rfl, ?_⟩
    intro candidates h
    cases h
  · rw [hv]
    refine ⟨rfl, rfl, ⟨[], (List.append_nil _).symm⟩, fun _ _ => rfl, ?_⟩
    intro _ h
    cases h
    refine ⟨fun left => ⟨_, Selector.filter_eq hp⟩, fun hok => ?_⟩
    rw [hv] at hok
    cases hok
  · rw [hv]
    refine ⟨rfl, rfl, ⟨events, rfl⟩, ?_, ?_⟩
    · intro e h
      cases h
    · intro _ h
      cases h
      exact ⟨fun left => ⟨_, Selector.filter_eq hp⟩, fun _ => ⟨rfl, rfl, project_survivors hp⟩⟩

end Procedures

end AccessGuard
