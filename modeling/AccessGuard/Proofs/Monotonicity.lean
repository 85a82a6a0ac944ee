import AccessGuard.Proofs.Reordering

/-!
# More grants never mean less access

Whatever some grants imply is implied by any grants that they are among. So a principal who is
given more grants is let through at least what was let through before: the same value, or a list
of which the former list is a part. Since more elements are left of a list after each requirement,
the selectors of the requirements after it see elements that they did not see before, and may
lead nowhere from one of them. That is the only way to lose by a grant; it is never a refusal.

* `Implied.mono`: what more grants imply.
* `grantedElements_sublist`: what more grants let through of a list.
* `check_mono`: the same check for two principals.
-/

namespace AccessGuard

variable {σ : Type} {grants more : List Grant} {r : Requirement} {rs : List Requirement}

/-! ## What more grants imply -/

theorem Implied.mono {p : Permission} {v : Value} (hmore : grants ⊆ more)
    (h : Implied grants p v) : Implied more p v := by
  obtain ⟨g, hg, himplies⟩ := h
  exact ⟨g, hmore hg, himplies⟩

namespace Requirement

theorem GrantedOn.mono {element : Value} (hmore : grants ⊆ more) (h : r.GrantedOn grants element) :
    r.GrantedOn more element := by
  obtain ⟨w, hw, himplied⟩ := h
  exact ⟨w, hw, himplied.mono hmore⟩

theorem GrantedThroughout.mono {v : Value} (hmore : grants ⊆ more)
    (h : r.GrantedThroughout grants v) : r.GrantedThroughout more v := by
  obtain ⟨w, hw, hleaves⟩ := h
  exact ⟨w, hw, fun leaf hleaf => (hleaves leaf hleaf).mono hmore⟩

end Requirement

theorem PrincipalSubject.covers_mono {s t : PrincipalSubject} {p : Permission}
    (hmore : s.grants ⊆ t.grants) (h : s.covers p = true) : t.covers p = true := by
  rw [covers_iff] at h ⊢
  obtain ⟨g, hg, hcovers⟩ := h
  exact ⟨g, hmore hg, hcovers⟩

/-- **More grants let through more elements**, and those in the same order. -/
theorem grantedElements_sublist (hmore : grants ⊆ more) (rs : List Requirement)
    (items : List Value) :
    (grantedElements grants rs items).Sublist (grantedElements more rs items) := by
  apply List.monotone_filter_right items
  intro element hgranted
  have hall := of_decide_eq_true hgranted
  exact decide_eq_true fun r hr => (hall r hr).mono hmore

/-! ## The same check for two principals -/

/-- **More grants never mean less access.** Where a check succeeds for a principal, it succeeds
for one who has all of its grants, and leaves the same value, or a list of which the other is a
part. Only of a list can it fail, and only because a selector leads nowhere from an element that
the grants of the first principal take away. -/
theorem check_mono (s t : PrincipalSubject) (hmore : ∀ g ∈ s.grants, g ∈ t.grants)
    (method : String) (rs : List Requirement) (v : Value) (state later : σ)
    (hok : (check s.toSubject method rs v state).result.verdict = .ok ()) :
    let fewer := check s.toSubject method rs v state
    let run := check t.toSubject method rs v later
    (run.result.verdict = .ok () ∧
      (v.isList = false → run.result.value = fewer.result.value) ∧
      ∀ items, v = .list items → ∃ rest₁ rest₂, fewer.result.value = .list rest₁ ∧
        run.result.value = .list rest₂ ∧ rest₁.Sublist rest₂) ∨
    ∃ items fault, v = .list items ∧ run.result.verdict = .error (.evaluation fault) ∧
      ∃ r ∈ rs, ∃ u ∈ items, r.selector.resolve u = .error fault ∧
        ∀ rest, fewer.result.value = .list rest → u ∉ rest := by
  dsimp only
  have hsub : s.grants ⊆ t.grants := hmore
  have hmediated := check_mediates hok
  rcases v.list_cases with ⟨items, rfl⟩ | hlist
  · have hrest := hmediated.eq_granted
    cases hrun : (check t.toSubject method rs (.list items) later).result.verdict with
    | ok _ =>
      left
      refine ⟨rfl, fun hlist => (by cases hlist), ?_⟩
      intro items' hitems
      cases hitems
      exact ⟨_, _, hrest, (check_mediates hrun).eq_granted, grantedElements_sublist hsub rs items⟩
    | error e =>
      right
      -- what is covered for the first principal is covered for the second, so nothing is refused
      obtain ⟨hcovers, -⟩ := check_list_ok_iff.1 hok
      obtain ⟨r, hr, u, hu, fault, hfault, rfl⟩ := check_list_fails_of_covers
        (fun r hr => PrincipalSubject.covers_mono hsub (hcovers r hr)) hrun
      refine ⟨items, fault, rfl, rfl, r, hr, u, hu, hfault, ?_⟩
      intro rest hvalue
      rw [hrest, Value.list.injEq] at hvalue
      rw [← hvalue]
      exact not_mem_grantedElements hr hfault
  · left
    have hthroughout := (check_whole_ok_iff hlist).1 hok
    have hrun : (check t.toSubject method rs v later).result.verdict = .ok () :=
      (check_whole_ok_iff hlist).2 fun r hr => (hthroughout r hr).mono hsub
    refine ⟨hrun, ?_, ?_⟩
    · intro _
      rw [(check_mediates hrun).eq_whole hlist, hmediated.eq_whole hlist]
    · rintro items rfl
      cases hlist

namespace Sample

/-- Grants the view of all cases. -/
def viewGrant : Grant :=
  ⟨"case:view", [.oneOf ["case"], .oneOf ["view"]], by decide +kernel⟩

/-- May view what the viewer may, and everything else. -/
def overseer : Principal := viewer.withGrant viewGrant

end Sample

/-- With the grant on all cases both counties are left where one was. Where units are looked at
after counties, the check fails for the case without a unit, which the viewer never gets to. -/
theorem check_mono_sample :
    let s := PrincipalSubject.of Sample.viewer .empty
    let t := PrincipalSubject.of Sample.overseer .empty
    let both := [Sample.case "north", Sample.case "south"]
    let byCounty := [Sample.byCounty "cases"]
    let inTurn := [Sample.byCounty "cases", Sample.byUnit "cases"]
    (∀ g ∈ s.grants, g ∈ t.grants) ∧
    (check s.toSubject "cases.list" byCounty (.list both) ()).result.verdict = .ok () ∧
    (∃ rest₁ rest₂,
      (check s.toSubject "cases.list" byCounty (.list both) ()).result.value = .list rest₁ ∧
      (check t.toSubject "cases.list" byCounty (.list both) ()).result.value = .list rest₂ ∧
      rest₁.Sublist rest₂) ∧
    (check s.toSubject "cases.list" inTurn Sample.cases ()).result.verdict = .ok () ∧
    ∃ fault, (check t.toSubject "cases.list" inTurn Sample.cases ()).result.verdict =
      .error (.evaluation fault) := by
  intro s t both byCounty inTurn
  have hmore : ∀ g ∈ s.grants, g ∈ t.grants := by decide +kernel
  have hboth : (check s.toSubject "cases.list" byCounty (.list both) ()).result.verdict = .ok () :=
    rfl
  have hcases : (check s.toSubject "cases.list" inTurn Sample.cases ()).result.verdict = .ok () :=
    rfl
  refine ⟨hmore, hboth, ?_, hcases, ?_⟩
  · rcases check_mono s t hmore "cases.list" byCounty (.list both) () () hboth with
      ⟨-, -, hlist⟩ | ⟨_, fault, _, he, _⟩
    · exact hlist both rfl
    · cases he
  · rcases check_mono s t hmore "cases.list" inTurn Sample.cases () () hcases with
      ⟨hok, -, -⟩ | ⟨_, fault, _, he, _⟩
    · cases hok
    · exact ⟨fault, he⟩

end AccessGuard
