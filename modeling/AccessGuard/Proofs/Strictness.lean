import AccessGuard.Proofs.Decisions

/-!
# Lists are checked at least as strictly

A value can be checked on its own or as an element of a list. On its own the subject is asked
about every leaf of what the selector leads to; in a list it is asked about that as it is, and
about a list only grants agree that leave the instance open, which agree to every leaf too. So
an element that is left of a list passes on its own. An element that passes on its own is left,
unless the selector leads to a list from it or fails on another element.

* `askEach_principal_ok`, `checkScalar_principal_ok`: when a value passes on its own.
* `GrantedOn.throughout`: what is granted on a value is granted on its leaves.
* `check_list_strict`: an element alone and in its list.
-/

namespace AccessGuard

variable {σ : Type} {s : PrincipalSubject} {method : String} {r : Requirement} {state : σ}

/-! ## A value and its leaves -/

/-- A list has no text, so what is implied on it is implied on whatever it contains. -/
theorem Implied.leaf {grants : List Grant} {p : Permission} {v leaf : Value}
    (h : Implied grants p v) (hleaf : leaf ∈ v.leaves) : Implied grants p leaf := by
  rcases v.list_cases with ⟨items, rfl⟩ | hv
  · obtain ⟨g, hg, himplies⟩ := h
    have habsent : g.implies p.domain p.action none = true := himplies
    exact ⟨g, hg, Grant.implies_of_absent habsent leaf.instanceText⟩
  · rw [Value.leaves_of_not_list hv, List.mem_singleton] at hleaf
    rw [hleaf]
    exact h

theorem Requirement.GrantedOn.throughout {grants : List Grant} {v : Value}
    (h : r.GrantedOn grants v) : r.GrantedThroughout grants v := by
  obtain ⟨w, hw, himplied⟩ := h
  exact ⟨w, hw, fun leaf hleaf => himplied.leaf hleaf⟩

/-- A value that is no list is its only leaf. -/
theorem Requirement.GrantedThroughout.on {grants : List Grant} {v w : Value}
    (h : r.GrantedThroughout grants v) (hw : r.selector.resolve v = .ok w)
    (hlist : w.isList = false) : r.GrantedOn grants v := by
  obtain ⟨u, hu, hleaves⟩ := h
  cases hw.symm.trans hu
  refine ⟨w, hw, hleaves w ?_⟩
  rw [Value.leaves_of_not_list hlist]
  exact List.mem_singleton_self w

/-! ## A value on its own -/

theorem askEach_principal_ok {p : Permission} {vs : List Value} :
    (askEach s.toSubject p vs state).result = .ok () ↔ ∀ v ∈ vs, Implied s.grants p v := by
  refine ⟨askEach_principal, fun h => ?_⟩
  induction vs generalizing state with
  | nil => rfl
  | cons v vs ih =>
    rw [List.forall_mem_cons] at h
    have hv : (s.toSubject.judge p v state).verdict = .ok () :=
      PrincipalSubject.judge_eq_ok.2 h.1
    rw [askEach]
    simp only [hv]
    exact ih h.2

theorem checkScalar_principal_ok {v : Value} :
    (checkScalar s.toSubject r v state).result = .ok () ↔ r.GrantedThroughout s.grants v := by
  rcases checkScalar_cases s.toSubject r v state with ⟨e, hw, he⟩ | ⟨w, hw, he⟩ <;> rw [he]
  · constructor
    · intro h
      cases h
    · rintro ⟨w, hok, -⟩
      cases hw.symm.trans hok
  · have hmap : ((askEach s.toSubject r.permission w.leaves state).result.mapError
        GuardError.denied = .ok ()) ↔
        (askEach s.toSubject r.permission w.leaves state).result = .ok () := by
      cases (askEach s.toSubject r.permission w.leaves state).result <;> simp [Except.mapError]
    dsimp only
    rw [hmap, askEach_principal_ok]
    constructor
    · intro h
      exact ⟨w, hw, h⟩
    · rintro ⟨u, hu, h⟩
      cases hw.symm.trans hu
      exact h

/-! ## One requirement -/

theorem check_alone_ok {v : Value} (hlist : v.isList = false) :
    (check s.toSubject method [r] v state).result.verdict = .ok () ↔
      r.GrantedThroughout s.grants v := by
  rw [check_singleton, checkOne_of_not_list hlist]
  exact checkScalar_principal_ok

/-- **Where something is granted no list is refused**: domain and action are covered. -/
theorem check_list_of_granted {v : Value} (h : r.GrantedOn s.grants v) (method : String)
    (xs : List Value) (state : σ) :
    let run := check s.toSubject method [r] (.list xs) state
    (∃ u ∈ xs, ∃ e, r.selector.resolve u = .error e ∧
      run.result.verdict = .error (.evaluation e)) ∨
    run.result = ⟨.ok (), .list (grantedElements s.grants [r] xs)⟩ := by
  obtain ⟨w, hw, himplied⟩ := h
  have hjudge : (s.judge r.permission w state).verdict = .ok () :=
    PrincipalSubject.judge_eq_ok.2 himplied
  dsimp only
  rw [check_singleton, checkOne]
  rcases checkCollection_cases s.toSubject r state xs with
    ⟨e, hp, he⟩ | ⟨candidates, hp, ⟨d, hrefused, -⟩ | ⟨hok, events, he⟩⟩
  · left
    obtain ⟨u, hu, hue⟩ := Selector.resolves_of_project_error hp
    exact ⟨u, hu, e, hue, by rw [he]⟩
  · -- where candidates are refused nothing passes, also not what the element leads to
    obtain ⟨e, herror⟩ := PrincipalSubject.judge_of_refused hrefused w
    cases hjudge.symm.trans herror
  · right
    rw [he]
    dsimp only
    rw [← survivors_principal r hp, ← PrincipalSubject.narrow_left hok]
    rfl

/-- **An element alone and in its list.** If it is left of the list, it passes alone. If it
passes alone and the selector leads to a value from it that is no list, then all its occurrences
are left, or another element leads nowhere; the list is not refused. -/
theorem check_list_strict (s : PrincipalSubject) (method : String) (r : Requirement)
    (xs : List Value) (v : Value) (state later : σ) (hlist : v.isList = false) :
    let alone := check s.toSubject method [r] v state
    let together := check s.toSubject method [r] (.list xs) later
    (∀ rest, together.result.verdict = .ok () → together.result.value = .list rest →
      v ∈ rest → alone.result.verdict = .ok ()) ∧
    ∀ w, alone.result.verdict = .ok () → r.selector.resolve v = .ok w → w.isList = false →
      (∃ u ∈ xs, u ≠ v ∧ ∃ e, r.selector.resolve u = .error e ∧
        together.result.verdict = .error (.evaluation e)) ∨
      (together.result.verdict = .ok () ∧ ∃ rest, together.result.value = .list rest ∧
        rest.Sublist xs ∧ rest.count v = xs.count v) := by
  dsimp only
  refine ⟨?_, ?_⟩
  · intro rest hok hvalue hrest
    have hmediated : Mediated s.grants [r] (.list xs) (.list rest) := hvalue ▸ check_mediates hok
    cases hmediated with
    | elements =>
      have hall : ∀ r' ∈ [r], r'.GrantedOn s.grants v :=
        of_decide_eq_true (List.mem_filter.1 hrest).2
      have hgranted : r.GrantedOn s.grants v := hall r (List.mem_singleton_self r)
      exact (check_alone_ok hlist).2 hgranted.throughout
    | whole hnot => cases hnot
  · intro w halone hw hwlist
    have hgranted : r.GrantedOn s.grants v := ((check_alone_ok hlist).1 halone).on hw hwlist
    rcases check_list_of_granted hgranted method xs later with ⟨u, hu, e, hue, he⟩ | hrun
    · left
      refine ⟨u, hu, ?_, e, hue, he⟩
      -- from the element itself the selector leads somewhere
      rintro rfl
      cases hw.symm.trans hue
    · right
      rw [hrun]
      refine ⟨rfl, _, rfl, List.filter_sublist, ?_⟩
      apply List.count_filter
      rw [decide_eq_true_iff, List.forall_mem_singleton]
      exact hgranted

/-- The case of the north passes alone and stays in the list, from which the other one goes. -/
theorem check_list_strict_sample :
    let s := PrincipalSubject.of Sample.viewer .empty
    let r := Sample.byCounty "cases"
    let north := Sample.case "north"
    let both := [north, Sample.case "south", north]
    let alone := check s.toSubject "cases.list" [r] north ()
    let together := check s.toSubject "cases.list" [r] (.list both) ()
    north.isList = false ∧ together.result.value = .list [north, north] ∧
      alone.result.verdict = .ok () ∧ ∃ rest, together.result.value = .list rest ∧
        rest.Sublist both ∧ rest.count north = both.count north := by
  intro s r north both alone together
  have hok : together.result.verdict = .ok () := rfl
  have hvalue : together.result.value = .list [north, north] := rfl
  obtain ⟨hstrict, hkept⟩ := check_list_strict s "cases.list" r both north () () rfl
  have halone : alone.result.verdict = .ok () := hstrict _ hok hvalue List.mem_cons_self
  refine ⟨rfl, hvalue, halone, ?_⟩
  rcases hkept (.str "north") halone rfl rfl with ⟨_, _, _, e, _, he⟩ | ⟨-, hrest⟩
  · cases hok.symm.trans he
  · exact hrest

/-- A case of no county has no leaf to ask about, so it passes alone; in a list it is asked about
as it is, and goes. -/
example :
    let s := PrincipalSubject.of Sample.viewer .empty
    let r := Sample.byCounty "cases"
    let nowhere := Value.record [("county", .list [])]
    (check s.toSubject "cases.list" [r] nowhere ()).result.verdict = .ok () ∧
      (check s.toSubject "cases.list" [r] (.list [nowhere]) ()).result.value = .list [] :=
  ⟨rfl, rfl⟩

end AccessGuard
