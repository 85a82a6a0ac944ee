import AccessGuard.Proofs.Leaves
import AccessGuard.Proofs.Reordering

/-!
# Without a grant

A principal none of whose grants covers the domain and action of a requirement gets nothing
through: a list is refused as a whole, also the empty one, and so is every value that the subject
is asked about. The one exception is a value about which nothing is asked, since the selector leads
from it to lists and nothing else. Where the selector leads nowhere the check says so, whatever is
granted.

* `judge_denies`, `narrow_denies`: a refusal names domain and action.
* `check_evaluation_iff`: when a requirement cannot be evaluated, for every subject.
* `check_principal_cases`: the three ways in which a check ends.
* `check_uncovered`: all ends of a check without a grant.
-/

namespace AccessGuard

/-! ## Requirements that cannot be evaluated -/

/-- **Why a requirement cannot be evaluated on a value**: its selector leads nowhere, from the
value or from the first such element of a list. -/
inductive Requirement.Unresolved (r : Requirement) : Value → EvaluationError → Prop where
  | element {items : List Value} {e : EvaluationError} : r.selector.FirstFault items e →
      Unresolved r (.list items) e
  | whole {v : Value} {e : EvaluationError} : v.isList = false → r.selector.resolve v = .error e →
      Unresolved r v e

namespace Requirement.Unresolved

variable {r : Requirement} {v : Value} {items : List Value} {e : EvaluationError}

theorem list_iff : r.Unresolved (.list items) e ↔ r.selector.FirstFault items e := by
  constructor
  · rintro (h | ⟨hlist, -⟩)
    · exact h
    · cases hlist
  · exact .element

theorem whole_iff (hlist : v.isList = false) :
    r.Unresolved v e ↔ r.selector.resolve v = .error e := by
  constructor
  · rintro (- | ⟨-, h⟩)
    · cases hlist
    · exact h
  · exact .whole hlist

theorem exists_iff (r : Requirement) (v : Value) : (∃ e, r.Unresolved v e) ↔
    (v.isList = false ∧ ∃ e, r.selector.resolve v = .error e) ∨
      ∃ items, v = .list items ∧ ∃ u ∈ items, ∃ e, r.selector.resolve u = .error e := by
  rcases v.list_cases with ⟨items, rfl⟩ | hlist
  · simp only [list_iff, Selector.exists_firstFault_iff]
    constructor
    · intro h
      exact .inr ⟨items, rfl, h⟩
    · rintro (⟨hlist, -⟩ | ⟨_, hitems, h⟩)
      · cases hlist
      · cases hitems
        exact h
  · simp only [whole_iff hlist]
    constructor
    · intro h
      exact .inl ⟨hlist, h⟩
    · rintro (⟨-, h⟩ | ⟨_, rfl, -⟩)
      · exact h
      · cases hlist

end Requirement.Unresolved

variable {τ σ : Type} {r : Requirement} {v : Value}

/-- **A check says that it cannot be evaluated** exactly if it cannot, whatever the subject. -/
theorem check_evaluation_iff (subject : Subject τ) (method : String) (r : Requirement) (v : Value)
    (state : τ) {e : EvaluationError} :
    (check subject method [r] v state).result.verdict = .error (.evaluation e) ↔
      r.Unresolved v e := by
  rw [check_singleton]
  -- the subject is asked after the selector has led somewhere, and its refusal is no such error
  rcases v.list_cases with ⟨items, rfl⟩ | hlist
  · rw [checkOne, Requirement.Unresolved.list_iff, ← Selector.project_eq_error_iff]
    rcases checkCollection_cases subject r state items with
      ⟨x, hp, he⟩ | ⟨candidates, hp, ⟨d, -, he⟩ | ⟨-, events, he⟩⟩ <;> rw [he, hp] <;> simp
  · rw [checkOne_of_not_list hlist, Requirement.Unresolved.whole_iff hlist]
    rcases checkScalar_cases subject r v state with ⟨x, hx, he⟩ | ⟨w, hw, he⟩
    · rw [he, hx]
      simp
    · rw [he, hw]
      dsimp only
      cases (askEach subject r.permission w.leaves state).result <;> simp [Except.mapError]

/-! ## What a refusal names -/

section Principals

variable {s : PrincipalSubject} {p : Permission} {state : σ} {d : Denial}

namespace PrincipalSubject

theorem judge_denies (h : (s.judge p v state).verdict = .error d) : d.permission = p.name := by
  unfold judge at h
  by_cases ha : s.allows p v = true
  · rw [if_pos ha] at h
    cases h
  · rw [if_neg ha] at h
    cases h
    rfl

theorem narrow_denies {candidates : CandidateSet}
    (h : (s.narrow p candidates state).verdict = .error d) : d.permission = p.name := by
  unfold narrow at h
  by_cases hc : s.covers p = true
  · rw [if_pos hc] at h
    cases h
  · rw [if_neg hc] at h
    cases h
    rfl

end PrincipalSubject

/-- **A check ends in one of three ways**: it succeeds, cannot be evaluated, or is refused by the
name of what was required. -/
theorem check_principal_cases (s : PrincipalSubject) (method : String) (r : Requirement)
    (v : Value) (state : σ) :
    let verdict := (check s.toSubject method [r] v state).result.verdict
    verdict = .ok () ∨ (∃ e, verdict = .error (.evaluation e)) ∨
      ∃ d, verdict = .error (.denied d) ∧ d.permission = r.permission.name := by
  dsimp only
  cases h : (check s.toSubject method [r] v state).result.verdict with
  | ok _ => exact .inl rfl
  | error e =>
    right
    -- a requirement fails as the subject refuses it or as its selector leads nowhere
    obtain ⟨r', hr', hfails⟩ := check_fails h
    rw [List.mem_singleton] at hr'
    subst hr'
    cases hfails with
    | candidates projected at_ hd =>
      exact .inr ⟨_, rfl, PrincipalSubject.narrow_denies hd⟩
    | leaf u at_ _ hd => exact .inr ⟨_, rfl, PrincipalSubject.judge_denies hd⟩
    | element _ _ => exact .inl ⟨_, rfl⟩
    | value _ _ => exact .inl ⟨_, rfl⟩

/-! ## Nothing is covered -/

theorem PrincipalSubject.covers_eq_false
    (huncovered : ∀ g ∈ s.grants, g.coversAction p.domain p.action = false) :
    s.covers p = false := by
  rw [← Bool.not_eq_true, covers_iff]
  rintro ⟨g, hg, hcovers⟩
  exact Bool.false_ne_true ((huncovered g hg).symm.trans hcovers)

/-- **Without a grant only what has no leaves is granted**: the subject is asked about nothing. -/
theorem Requirement.grantedThroughout_uncovered_iff (hcovers : s.covers r.permission = false) :
    r.GrantedThroughout s.grants v ↔
      ∃ items, r.selector.resolve v = .ok (.list items) ∧ (Value.list items).Leafless := by
  have hrefused (u : Value) : ¬ Implied s.grants r.permission u := fun himplied =>
    Bool.false_ne_true (hcovers.symm.trans (PrincipalSubject.covers_of_implied himplied))
  constructor
  · rintro ⟨w, hw, hleaves⟩
    have hnil : w.leaves = [] :=
      List.eq_nil_iff_forall_not_mem.2 fun leaf hleaf => hrefused leaf (hleaves leaf hleaf)
    rcases w.list_cases with ⟨items, rfl⟩ | hlist
    · exact ⟨items, hw, Value.leaves_eq_nil_iff.1 hnil⟩
    · -- a value that is no list is a leaf of its own
      rw [Value.leaves_of_not_list hlist] at hnil
      cases hnil
  · rintro ⟨items, hw, hleafless⟩
    refine ⟨.list items, hw, ?_⟩
    rw [Value.leaves_eq_nil_iff.2 hleafless]
    exact List.forall_mem_nil _

theorem check_uncovered_ok_iff (hcovers : s.covers r.permission = false) (method : String)
    (v : Value) (state : σ) :
    (check s.toSubject method [r] v state).result.verdict = .ok () ↔
      v.isList = false ∧
        ∃ items, r.selector.resolve v = .ok (.list items) ∧ (Value.list items).Leafless := by
  rcases v.list_cases with ⟨items, rfl⟩ | hlist
  · rw [check_singleton, checkOne_list_ok_iff, hcovers]
    refine iff_of_false (fun h => Bool.false_ne_true h.1) ?_
    rintro ⟨hlist, -⟩
    cases hlist
  · rw [check_alone_ok hlist, Requirement.grantedThroughout_uncovered_iff hcovers]
    exact (and_iff_right hlist).symm

/-- **Without a grant nothing gets through.** Where no grant covers the domain and action of a
requirement, its check succeeds on a value that is no list and from which the selector leads to a
list without leaves, and on nothing else. Where the selector leads nowhere, from the value or from
an element of a list, the check says why, for the first such element. In all other cases it is a
refusal that names domain and action, also of the empty list. -/
theorem check_uncovered (s : PrincipalSubject) (r : Requirement)
    (huncovered : ∀ g ∈ s.grants,
      g.coversAction r.permission.domain r.permission.action = false)
    (method : String) (v : Value) (state : σ) :
    let verdict := (check s.toSubject method [r] v state).result.verdict
    let refused := ∃ d, verdict = .error (.denied d) ∧
      d.permission = r.permission.domain ++ ":" ++ r.permission.action
    let unresolved := (v.isList = false ∧ ∃ e, r.selector.resolve v = .error e) ∨
      ∃ items, v = .list items ∧ ∃ u ∈ items, ∃ e, r.selector.resolve u = .error e
    (verdict = .ok () ↔ v.isList = false ∧
      ∃ items, r.selector.resolve v = .ok (.list items) ∧ (Value.list items).Leafless) ∧
    ((∃ e, verdict = .error (.evaluation e)) ↔ unresolved) ∧
    (∀ e, verdict = .error (.evaluation e) ↔ r.Unresolved v e) ∧
    (verdict ≠ .ok () → ¬ unresolved → refused) ∧
    (v = .list [] → refused) := by
  have hcovers := PrincipalSubject.covers_eq_false huncovered
  have hok := check_uncovered_ok_iff hcovers method v state
  have hevaluation (e : EvaluationError) :
      (check s.toSubject method [r] v state).result.verdict = .error (.evaluation e) ↔
        r.Unresolved v e := check_evaluation_iff s.toSubject method r v state
  have hunresolved := Requirement.Unresolved.exists_iff r v
  have hends := check_principal_cases s method r v state
  dsimp only at hends ⊢
  simp only [← hevaluation] at hunresolved
  rw [← hunresolved]
  refine ⟨hok, Iff.rfl, hevaluation, ?_, ?_⟩
  · intro hne hno
    exact (hends.resolve_left hne).resolve_left hno
  · rintro rfl
    refine (hends.resolve_left ?_).resolve_left ?_
    · intro h
      cases (hok.1 h).1
    · rintro ⟨e, he⟩
      -- the empty list has no element from which a selector could lead nowhere
      exact Selector.not_firstFault_nil (Requirement.Unresolved.list_iff.1 ((hevaluation e).1 he))

namespace Sample

/-- Cases may be edited tag by tag. -/
def editTags : Requirement := ⟨⟨"case", "edit", "case", ".tags"⟩, ⟨"case", [.field "tags"]⟩⟩

/-- A case with two groups of tags, both of them empty. -/
def untagged : Value := .record [("tags", .list [.list [], .list []])]

end Sample

/-- The viewer may edit nothing. A case without tags passes all the same, one with a tag is
refused, and so are all cases, even if there are none; a case without the field is an error. -/
theorem check_uncovered_sample :
    let s := PrincipalSubject.of Sample.viewer .empty
    let r := Sample.editTags
    let tagged : Value := .record [("tags", .list [.list [], .list [.str "north"]])]
    let verdict (v : Value) := (check s.toSubject "cases.edit" [r] v ()).result.verdict
    (∀ g ∈ s.grants, g.coversAction r.permission.domain r.permission.action = false) ∧
    (∃ items, r.selector.resolve Sample.untagged = .ok (.list items) ∧
      (Value.list items).Leafless) ∧
    (∃ d, verdict tagged = .error (.denied d) ∧ d.permission = "case:edit") ∧
    (∃ d, verdict (.list []) = .error (.denied d) ∧ d.permission = "case:edit") ∧
    ∃ e, verdict (.record []) = .error (.evaluation e) := by
  intro s r tagged verdict
  have huncovered : ∀ g ∈ s.grants,
      g.coversAction r.permission.domain r.permission.action = false := by decide +kernel
  obtain ⟨hok, -⟩ := check_uncovered s r huncovered "cases.edit" Sample.untagged ()
  obtain ⟨-, -, -, htagged, -⟩ := check_uncovered s r huncovered "cases.edit" tagged ()
  obtain ⟨-, -, -, -, hempty⟩ := check_uncovered s r huncovered "cases.edit" (.list []) ()
  obtain ⟨-, hfails, -⟩ := check_uncovered s r huncovered "cases.edit" (.record []) ()
  refine ⟨huncovered, (hok.1 rfl).2, htagged ?_ ?_, hempty rfl, hfails.2 (.inl ⟨rfl, _, rfl⟩)⟩
  · intro h
    cases h
  · rintro (⟨-, e, he⟩ | ⟨items, hitems, -⟩)
    · cases he
    · exact Bool.false_ne_true (congrArg Value.isList hitems)

end Principals

end AccessGuard
