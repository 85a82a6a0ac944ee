import AccessGuard.Proofs.Failures
import AccessGuard.Proofs.Strictness

/-!
# Requirements in another order

Requirements narrow a list in turn, so each selector sees only the elements that the requirements
before it have left. What is let through in the end does not show the order: these are the
elements on which all requirements are granted. Nor does it show in a refusal, which looks at
domain and action alone. It shows where a selector leads nowhere from an element, since another
requirement may or may not have taken that element away before.

* `check_whole_ok_iff`: requirements on a value that is no list.
* `check_list_ok_iff`: requirements on a list, with what each of them sees of it.
* `check_list_fails_of_covers`: the one way in which a list can fail that is not refused.
* `check_perm`: the same requirements in another order.
-/

namespace AccessGuard

variable {σ : Type} {s : PrincipalSubject} {method : String} {r : Requirement}
  {rs rs' : List Requirement} {state : σ} {v : Value} {items : List Value}

/-! ## What is let through -/

theorem Mediated.eq_granted {grants : List Grant} {w : Value}
    (h : Mediated grants rs (.list items) w) : w = .list (grantedElements grants rs items) := by
  cases h with
  | elements => rfl
  | whole hlist _ => cases hlist

theorem Mediated.eq_whole {grants : List Grant} {w : Value} (hlist : v.isList = false)
    (h : Mediated grants rs v w) : w = v := by
  cases h with
  | elements => cases hlist
  | whole => rfl

theorem grantedElements_perm {grants : List Grant} (hp : rs.Perm rs') :
    grantedElements grants rs items = grantedElements grants rs' items := by
  unfold grantedElements
  simp only [hp.mem_iff]

/-- **What is let through does not show the order** of the requirements. -/
theorem Mediated.eq_of_perm {grants : List Grant} {w w' : Value} (hp : rs.Perm rs')
    (h : Mediated grants rs v w) (h' : Mediated grants rs' v w') : w = w' := by
  cases h with
  | elements items => rw [h'.eq_granted, grantedElements_perm hp]
  | whole hlist _ =>
    cases h' with
    | elements => cases hlist
    | whole => rfl

/-! ## When requirements are met -/

theorem check_cons_ok_iff {τ : Type} {subject : Subject τ} {state : τ} :
    (check subject method (r :: rs) v state).result.verdict = .ok () ↔
      (checkOne subject r v state).result.verdict = .ok () ∧
        (check subject method rs (checkOne subject r v state).result.value
          (checkOne subject r v state).state).result.verdict = .ok () := by
  cases h : (checkOne subject r v state).result.verdict with
  | error e =>
    rw [check_cons_of_error h]
    dsimp only
    rw [h]
    simp
  | ok _ =>
    rw [check_cons_of_ok h]
    simp

/-- **A value that is no list** meets requirements that are all granted throughout it. -/
theorem check_whole_ok_iff (hlist : v.isList = false) :
    (check s.toSubject method rs v state).result.verdict = .ok () ↔
      ∀ r ∈ rs, r.GrantedThroughout s.grants v := by
  induction rs generalizing state with
  | nil => simp [check]
  | cons r rs ih =>
    rw [check_cons_ok_iff, checkOne_of_not_list hlist, List.forall_mem_cons]
    dsimp only
    rw [checkScalar_principal_ok, ih]

theorem checkOne_list_ok_iff :
    (checkOne s.toSubject r (.list items) state).result.verdict = .ok () ↔
      s.covers r.permission = true ∧ ∀ u ∈ items, ∃ w, r.selector.resolve u = .ok w := by
  rw [checkOne]
  rcases checkCollection_cases s.toSubject r state items with
    ⟨e, hp, he⟩ | ⟨candidates, hp, ⟨d, hd, he⟩ | ⟨hok, events, he⟩⟩ <;> rw [he] <;> dsimp only
  · obtain ⟨u, hu, hue⟩ := Selector.resolves_of_project_error hp
    constructor
    · intro h
      cases h
    · rintro ⟨-, hall⟩
      obtain ⟨w, hw⟩ := hall u hu
      cases hw.symm.trans hue
  · constructor
    · intro h
      cases h
    · rintro ⟨hcovers, -⟩
      have hok : (s.narrow r.permission candidates state).verdict = .ok () :=
        PrincipalSubject.narrow_eq_ok.2 hcovers
      cases hok.symm.trans hd
  · refine iff_of_true rfl ⟨PrincipalSubject.narrow_eq_ok.1 hok, ?_⟩
    intro u hu
    obtain ⟨w, -, hw⟩ := Selector.resolves_of_project hp hu
    exact ⟨w, hw⟩

/-- Each selector leads somewhere from the elements that the requirements before it leave. -/
def LeadInTurn (grants : List Grant) : List Requirement → List Value → Prop
  | [], _ => True
  | r :: rs, items => (∀ u ∈ items, ∃ w, r.selector.resolve u = .ok w) ∧
      LeadInTurn grants rs (grantedElements grants [r] items)

/-- **A list meets requirements** whose domains and actions are all covered, if their selectors
lead somewhere in turn. Only the second depends on the order. -/
theorem check_list_ok_iff :
    (check s.toSubject method rs (.list items) state).result.verdict = .ok () ↔
      (∀ r ∈ rs, s.covers r.permission = true) ∧ LeadInTurn s.grants rs items := by
  induction rs generalizing items state with
  | nil => simp [check, LeadInTurn]
  | cons r rs ih =>
    rw [check_cons_ok_iff, List.forall_mem_cons, LeadInTurn]
    constructor
    · rintro ⟨hr, hrs⟩
      obtain ⟨hcovers, hleads⟩ := checkOne_list_ok_iff.1 hr
      -- the other requirements see what the first one leaves
      rw [(checkOne_mediates hr).eq_granted, ih] at hrs
      exact ⟨⟨hcovers, hrs.1⟩, hleads, hrs.2⟩
    · rintro ⟨⟨hcovers, hcoverall⟩, hleads, hlater⟩
      have hr : (checkOne s.toSubject r (.list items) state).result.verdict = .ok () :=
        checkOne_list_ok_iff.2 ⟨hcovers, hleads⟩
      rw [(checkOne_mediates hr).eq_granted, ih]
      exact ⟨hr, hcoverall, hlater⟩

/-- **Where domains and actions are covered no list is refused**: its check can only fail for an
element from which a selector leads nowhere. -/
theorem check_list_fails_of_covers {e : GuardError}
    (hcovers : ∀ r ∈ rs, s.covers r.permission = true)
    (hfails : (check s.toSubject method rs (.list items) state).result.verdict = .error e) :
    ∃ r ∈ rs, ∃ u ∈ items, ∃ fault, r.selector.resolve u = .error fault ∧
      e = .evaluation fault := by
  obtain ⟨r, hr, hfailsOn⟩ := check_fails hfails
  cases hfailsOn with
  | candidates projected at_ hd =>
    have hnarrow : (s.narrow r.permission projected at_).verdict = .ok () :=
      PrincipalSubject.narrow_eq_ok.2 (hcovers r hr)
    cases hnarrow.symm.trans hd
  | element hu he => exact ⟨r, hr, _, hu, _, he, rfl⟩
  | leaf _ _ hlist => cases hlist
  | value hlist => cases hlist

/-- An element from which a selector leads nowhere is let through by no grants. -/
theorem not_mem_grantedElements {grants : List Grant} {u : Value} {fault : EvaluationError}
    (hr : r ∈ rs) (hfault : r.selector.resolve u = .error fault) :
    u ∉ grantedElements grants rs items := by
  intro hgranted
  have hall := of_decide_eq_true (List.mem_filter.1 hgranted).2
  obtain ⟨w, hw, -⟩ := hall r hr
  cases hw.symm.trans hfault

/-! ## The same requirements in another order -/

/-- A list that meets requirements is refused in no order of them: where it fails in another
order, a selector leads nowhere from an element that the first order takes away. -/
theorem check_list_perm_fails {later : σ} {e : GuardError} (hp : rs.Perm rs')
    (hok : (check s.toSubject method rs (.list items) state).result.verdict = .ok ())
    (hfails : (check s.toSubject method rs' (.list items) later).result.verdict = .error e) :
    ∃ r ∈ rs', ∃ u ∈ items, u ∉ grantedElements s.grants rs items ∧
      ∃ fault, r.selector.resolve u = .error fault ∧ e = .evaluation fault := by
  obtain ⟨hcovers, -⟩ := check_list_ok_iff.1 hok
  obtain ⟨r, hr, u, hu, fault, hfault, rfl⟩ :=
    check_list_fails_of_covers (fun r hr => hcovers r (hp.mem_iff.2 hr)) hfails
  exact ⟨r, hr, u, hu, not_mem_grantedElements (hp.mem_iff.2 hr) hfault, fault, hfault, rfl⟩

/-- **The order of requirements does not change what is let through.** Where both orders succeed
they leave the same. Where only one succeeds the value is a list, and the other one fails
because a selector leads nowhere from an element that the first one takes away; it is never a
refusal. A value that is no list meets the requirements in every order or in none. -/
theorem check_perm (s : PrincipalSubject) (method : String) {rs rs' : List Requirement}
    (hp : rs.Perm rs') (v : Value) (state later : σ) :
    let run := check s.toSubject method rs v state
    let other := check s.toSubject method rs' v later
    (run.result.verdict = .ok () → other.result.verdict = .ok () →
      run.result.value = other.result.value) ∧
    (∀ e, run.result.verdict = .ok () → other.result.verdict = .error e →
      ∃ items fault, v = .list items ∧ e = .evaluation fault ∧
        ∃ r ∈ rs', ∃ u ∈ items, r.selector.resolve u = .error fault ∧
          ∀ rest, run.result.value = .list rest → u ∉ rest) ∧
    (v.isList = false → run.result.verdict = .ok () → other.result.verdict = .ok ()) := by
  dsimp only
  have hwhole (hlist : v.isList = false)
      (hok : (check s.toSubject method rs v state).result.verdict = .ok ()) :
      (check s.toSubject method rs' v later).result.verdict = .ok () := by
    rw [check_whole_ok_iff hlist] at hok ⊢
    intro r hr
    exact hok r (hp.mem_iff.2 hr)
  refine ⟨?_, ?_, hwhole⟩
  · intro hok hok'
    exact (check_mediates hok).eq_of_perm hp (check_mediates hok')
  · intro e hok hfails
    rcases v.list_cases with ⟨items, rfl⟩ | hlist
    · obtain ⟨r, hr, u, hu, hgone, fault, hfault, rfl⟩ := check_list_perm_fails hp hok hfails
      refine ⟨items, fault, rfl, rfl, r, hr, u, hu, hfault, ?_⟩
      intro rest hrest
      rw [(check_mediates hok).eq_granted, Value.list.injEq] at hrest
      rw [← hrest]
      exact hgone
    · cases (hwhole hlist hok).symm.trans hfails

namespace Sample

/-- Cases may be viewed unit by unit. -/
def byUnit (binding : String) : Requirement :=
  ⟨⟨"case", "view", binding, ".unit"⟩, ⟨binding, [.field "unit"]⟩⟩

/-- A case of the north with its unit, and a case of the south without one. -/
def cases : Value :=
  .list [.record [("county", .str "north"), ("unit", .str "north")], case "south"]

end Sample

/-- By county first, the case without a unit is gone before units are looked at; by unit first,
the check fails for it. -/
theorem check_perm_sample :
    let s := PrincipalSubject.of Sample.viewer .empty
    let rs := [Sample.byCounty "cases", Sample.byUnit "cases"]
    let rs' := [Sample.byUnit "cases", Sample.byCounty "cases"]
    rs.Perm rs' ∧ (check s.toSubject "cases.list" rs Sample.cases ()).result.verdict = .ok () ∧
      ∃ items fault, Sample.cases = .list items ∧
        (check s.toSubject "cases.list" rs' Sample.cases ()).result.verdict =
          .error (.evaluation fault) ∧
        ∃ r ∈ rs', ∃ u ∈ items, r.selector.resolve u = .error fault := by
  intro s rs rs'
  have hp : rs.Perm rs' := List.Perm.swap _ _ _
  have hok : (check s.toSubject "cases.list" rs Sample.cases ()).result.verdict = .ok () := rfl
  obtain ⟨-, hfails, -⟩ := check_perm s "cases.list" hp Sample.cases () ()
  cases hother : (check s.toSubject "cases.list" rs' Sample.cases ()).result.verdict with
  | ok _ => cases hother
  | error e =>
    obtain ⟨items, fault, hitems, rfl, r, hr, u, hu, he, -⟩ := hfails e hok hother
    exact ⟨hp, hok, items, fault, hitems, rfl, r, hr, u, hu, he⟩

end AccessGuard
