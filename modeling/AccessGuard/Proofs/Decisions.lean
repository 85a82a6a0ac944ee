import AccessGuard.Proofs.ByteOrder
import AccessGuard.Proofs.GrantMatching
import AccessGuard.Proofs.Mediation

/-!
# One decision

The subject of a principal decides in three places: about a value, about candidates and in an
explanation. Candidates are refused as a whole where no grant covers domain and action, which
looks at fewer parts of a grant than the decision about a value does. What it refuses no value
would have passed, since a grant that implies a permission on a value covers it.

* `judge_eq_ok`, `narrow_eq_ok`: when a value passes, and when candidates do.
* `judge_of_refused`: a refusal of candidates hides no value that passes.
* `matching?_eq_some`: the grant behind a decision, by its place among the grants.
* `decisions_agree`: the three places agree.
-/

namespace AccessGuard

variable {σ : Type} {state : σ}

/-- The first grant, in the order of effect, that implies the permission on a value. -/
def FirstImplying (grants : List Grant) (p : Permission) (v : Value) (g : Grant) : Prop :=
  g.implies p.domain p.action v.instanceText = true ∧
    ∃ before after, grants = before ++ g :: after ∧
      ∀ h ∈ before, h.implies p.domain p.action v.instanceText = false

namespace PrincipalSubject

variable {s : PrincipalSubject} {p : Permission} {v : Value} {candidates : CandidateSet}

/-! ## Values and candidates -/

theorem judge_eq_ok : (s.judge p v state).verdict = .ok () ↔ Implied s.grants p v := by
  rw [← allows_iff]
  unfold judge
  by_cases h : s.allows p v = true <;> simp [h]

theorem covers_iff :
    s.covers p = true ↔ ∃ g ∈ s.grants, g.coversAction p.domain p.action = true :=
  List.any_eq_true

theorem narrow_eq_ok : (s.narrow p candidates state).verdict = .ok () ↔ s.covers p = true := by
  unfold narrow
  by_cases h : s.covers p = true <;> simp [h]

theorem covers_of_implied (h : Implied s.grants p v) : s.covers p = true := by
  obtain ⟨g, hg, himplies⟩ := h
  exact covers_iff.2 ⟨g, hg, Grant.coversAction_of_implies himplies⟩

theorem left_of_refused {d : Denial} (h : (s.narrow p candidates state).verdict = .error d) :
    (s.narrow p candidates state).left = candidates := by
  unfold narrow at h ⊢
  by_cases hc : s.covers p = true
  · rw [if_pos hc] at h
    cases h
  · rw [if_neg hc]

/-- **What is left are the candidates that would pass on their own.** -/
theorem mem_left_iff {later : σ} (h : (s.narrow p candidates state).verdict = .ok ()) :
    v ∈ (s.narrow p candidates state).left ↔
      v ∈ candidates ∧ (s.judge p v later).verdict = .ok () := by
  rw [narrow_left h, CandidateSet.mem_retain, judge_eq_ok, allows_iff]

/-- **A refusal of candidates hides no value**: whatever it is, it would not pass. -/
theorem judge_of_refused {later : σ} {d : Denial}
    (h : (s.narrow p candidates state).verdict = .error d) (v : Value) :
    ∃ e, (s.judge p v later).verdict = .error e := by
  cases hv : (s.judge p v later).verdict with
  | error e => exact ⟨e, rfl⟩
  | ok _ =>
    -- a grant that lets the value pass covers it, so candidates would not have been refused
    have hcovers : s.covers p = true := covers_of_implied (judge_eq_ok.1 hv)
    rw [narrow_eq_ok.2 hcovers] at h
    cases h

/-! ## Explanations -/

theorem matching?_eq_some {g : Grant} :
    s.matching? p v = some g ↔ FirstImplying s.grants p v g := by
  unfold matching? FirstImplying
  rw [List.find?_eq_some_iff_append]
  simp only [Bool.not_eq_true']

theorem matching?_eq_none : s.matching? p v = none ↔ ¬ Implied s.grants p v := by
  rw [← allows_iff, allows, Bool.not_eq_true, Option.isSome_eq_false_iff, Option.isNone_iff_eq_none]

theorem explain_granted : (s.explain p v).granted = true ↔ Implied s.grants p v := allows_iff

theorem explain_matched : (s.explain p v).matched = (s.matching? p v).map Grant.text := rfl

theorem explain_matched_eq_some {text : String} :
    (s.explain p v).matched = some text ↔ ∃ g, FirstImplying s.grants p v g ∧ g.text = text := by
  rw [explain_matched, Option.map_eq_some_iff]
  simp only [matching?_eq_some]

theorem explain_matched_eq_none : (s.explain p v).matched = none ↔ ¬ Implied s.grants p v := by
  rw [explain_matched, Option.map_eq_none_iff, matching?_eq_none]

theorem explain_effectiveGrants_perm :
    (s.explain p v).effectiveGrants.Perm (s.grants.map Grant.text) :=
  List.mergeSort_perm _ _

theorem explain_effectiveGrants_sorted :
    (s.explain p v).effectiveGrants.Pairwise fun a b => bytes a ≤ bytes b :=
  mergeSort_bytes _

/-! ## Agreement -/

/-- **One decision, wherever it is taken.** Candidates pass where a grant covers domain and
action; then those are left that pass on their own. Otherwise the set is as it was, and no value
at all passes. An explanation says of a value whether it passes, by the text of which grant, and
lists the grants in the order of their bytes. -/
theorem decisions_agree (s : PrincipalSubject) (p : Permission) (candidates : CandidateSet)
    (state later : σ) :
    let narrowing := s.toSubject.narrow p candidates state
    let Passes (v : Value) := (s.toSubject.judge p v later).verdict = .ok ()
    (narrowing.verdict = .ok () ↔ ∃ g ∈ s.grants, g.coversAction p.domain p.action = true) ∧
    (narrowing.verdict = .ok () → ∀ v, v ∈ narrowing.left ↔ v ∈ candidates ∧ Passes v) ∧
    (∀ d, narrowing.verdict = .error d → narrowing.left = candidates ∧
      ∀ v, ∃ e, (s.toSubject.judge p v later).verdict = .error e) ∧
    ∀ v, let explanation := s.explain p v
      (explanation.granted = true ↔ Passes v) ∧
      (∀ text, explanation.matched = some text ↔
        ∃ g, FirstImplying s.grants p v g ∧ g.text = text) ∧
      (explanation.matched = none ↔ ¬ Passes v) ∧
      explanation.effectiveGrants.Perm (s.grants.map Grant.text) ∧
      explanation.effectiveGrants.Pairwise fun a b => bytes a ≤ bytes b := by
  have hnarrow : s.toSubject.narrow p candidates state = s.narrow p candidates state := rfl
  have hjudge (v : Value) : s.toSubject.judge p v later = s.judge p v later := rfl
  simp only [hnarrow, hjudge]
  refine ⟨?_, ?_, ?_, ?_⟩
  · rw [narrow_eq_ok, covers_iff]
  · intro h v
    exact mem_left_iff h
  · intro d h
    exact ⟨left_of_refused h, judge_of_refused h⟩
  · intro v
    rw [judge_eq_ok]
    exact ⟨explain_granted, fun _ => explain_matched_eq_some, explain_matched_eq_none,
      explain_effectiveGrants_perm, explain_effectiveGrants_sorted⟩

/-- The viewer is left one of two counties, and may edit in none. -/
theorem decisions_agree_sample :
    let s := PrincipalSubject.of Sample.viewer .empty
    let view := (Sample.byCounty "cases").permission
    let edit := { view with action := "edit" }
    let both := CandidateSet.ofList [.str "south", .str "north"]
    (∀ v, v ∈ (s.toSubject.narrow view both ()).left ↔
      v ∈ both ∧ (s.toSubject.judge view v ()).verdict = .ok ()) ∧
    (s.explain view (.str "north")).matched = some "case:view:north" ∧
    ((s.toSubject.narrow edit both ()).left = both ∧
      ∀ v, ∃ e, (s.toSubject.judge edit v ()).verdict = .error e) := by
  intro s view edit both
  have hview := decisions_agree s view both () ()
  have hedit := decisions_agree s edit both () ()
  refine ⟨hview.2.1 (hview.1.2 ⟨Sample.northGrant, by decide, by decide⟩), ?_,
    hedit.2.2.1 _ rfl⟩
  refine ((hview.2.2.2 (.str "north")).2.1 _).2 ⟨Sample.northGrant, ?_, rfl⟩
  exact ⟨by decide, [], [], rfl, List.forall_mem_nil _⟩

end PrincipalSubject

end AccessGuard
