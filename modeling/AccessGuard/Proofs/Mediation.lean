import AccessGuard.Proofs.Narrowing
import AccessGuard.Proofs.Trace
import AccessGuard.Subject.Principal

/-!
# Exact mediation

What a call lets through when its subject is that of a principal. A grant implies a permission
on a value through the text of the value, so what is let through of a list can be said element
by element, without the set of candidates: the elements on which every requirement is granted.

* `check_mediates`: the requirements on one value, which narrow a list in turn.
* `checkArguments_mediates`: the arguments of a call, slot by slot.
* `invoke_mediates`: what the operation is given, and what the caller gets of its result.
-/

namespace AccessGuard

variable {τ ε : Type} {method : String} {state : τ}

/-! ## What is granted -/

/-- Does one of the grants imply the permission on a value? -/
def Implied (grants : List Grant) (p : Permission) (v : Value) : Prop :=
  ∃ g ∈ grants, g.implies p.domain p.action v.instanceText = true

instance (grants : List Grant) (p : Permission) (v : Value) : Decidable (Implied grants p v) :=
  inferInstanceAs (Decidable (∃ g ∈ grants, _))

namespace Requirement

/-- A requirement on an element of a list: the selector leads to a value, on which the
permission is implied. -/
def GrantedOn (r : Requirement) (grants : List Grant) (element : Value) : Prop :=
  ∃ w, r.selector.resolve element = .ok w ∧ Implied grants r.permission w

instance (r : Requirement) (grants : List Grant) (element : Value) :
    Decidable (r.GrantedOn grants element) :=
  match h : r.selector.resolve element with
  | .ok w => decidable_of_iff (Implied grants r.permission w)
      ⟨fun hi => ⟨w, h, hi⟩, fun ⟨_, hu, hi⟩ => Except.ok.inj (h.symm.trans hu) ▸ hi⟩
  | .error _ => isFalse fun ⟨_, hu, _⟩ => Except.noConfusion rfl rfl (heq_of_eq (h.symm.trans hu))

/-- A requirement on a value that is no list: the selector leads to a value, on each leaf of
which the permission is implied. -/
def GrantedThroughout (r : Requirement) (grants : List Grant) (v : Value) : Prop :=
  ∃ w, r.selector.resolve v = .ok w ∧ ∀ leaf ∈ w.leaves, Implied grants r.permission leaf

end Requirement

/-- The elements on which every requirement is granted, in their order and as often as they
occur. -/
def grantedElements (grants : List Grant) (rs : List Requirement) (items : List Value) :
    List Value :=
  items.filter fun element => decide (∀ r ∈ rs, r.GrantedOn grants element)

/-- **What is let through of a value.** A list loses the elements on which a requirement is not
granted; any other value is let through as it is, if all requirements are granted. -/
inductive Mediated (grants : List Grant) (rs : List Requirement) : Value → Value → Prop where
  | elements (items : List Value) :
      Mediated grants rs (.list items) (.list (grantedElements grants rs items))
  | whole {v : Value} : v.isList = false → (∀ r ∈ rs, r.GrantedThroughout grants v) →
      Mediated grants rs v v

namespace Mediated

variable {grants : List Grant} {r : Requirement} {rs : List Requirement} {u v w : Value}

theorem nil (v : Value) : Mediated grants [] v v := by
  rcases v.list_cases with ⟨items, rfl⟩ | hv
  · have hall : grantedElements grants [] items = items := by
      unfold grantedElements
      rw [List.filter_eq_self]
      intro element _
      exact decide_eq_true (List.forall_mem_nil _)
    have h : Mediated grants [] (.list items) (.list (grantedElements grants [] items)) :=
      .elements items
    rw [hall] at h
    exact h
  · exact .whole hv (List.forall_mem_nil _)

/-- **Successive narrowing.** The other requirements see only what the first one lets through;
together they let through what all of them grant. -/
theorem cons (h₁ : Mediated grants [r] u v) (h₂ : Mediated grants rs v w) :
    Mediated grants (r :: rs) u w := by
  cases h₁ with
  | elements items =>
    cases h₂ with
    | elements =>
      have hboth : grantedElements grants rs (grantedElements grants [r] items) =
          grantedElements grants (r :: rs) items := by
        unfold grantedElements
        rw [List.filter_filter]
        apply List.filter_congr
        intro element _
        rw [Bool.eq_iff_iff, Bool.and_eq_true, decide_eq_true_iff, decide_eq_true_iff,
          decide_eq_true_iff, List.forall_mem_singleton, List.forall_mem_cons]
        exact And.comm
      rw [hboth]
      exact .elements items
    | whole hv => cases hv
  | whole hv hr =>
    cases h₂ with
    | elements => cases hv
    | whole _ hrs =>
      refine .whole hv ?_
      rw [List.forall_mem_cons]
      exact ⟨hr r List.mem_cons_self, hrs⟩

end Mediated

/-! ## One value -/

namespace PrincipalSubject

variable {s : PrincipalSubject} {p : Permission} {v : Value}

theorem allows_iff : s.allows p v = true ↔ Implied s.grants p v := by
  unfold allows matching? Implied
  rw [List.find?_isSome]

theorem narrow_state (s : PrincipalSubject) (p : Permission) (candidates : CandidateSet) :
    (s.narrow p candidates state).state = state := by
  unfold narrow
  split <;> rfl

/-- Where candidates are not refused as a whole, those that are implied are left. -/
theorem narrow_left {candidates : CandidateSet}
    (h : (s.narrow p candidates state).verdict = .ok ()) :
    (s.narrow p candidates state).left = candidates.retain (s.allows p) := by
  unfold narrow at h ⊢
  by_cases hc : s.covers p = true
  · rw [if_pos hc]
  · rw [if_neg hc] at h
    cases h

end PrincipalSubject

section Principal

variable {s : PrincipalSubject}

theorem askEach_principal_state (p : Permission) (vs : List Value) :
    (askEach s.toSubject p vs state).state = state := by
  induction vs with
  | nil => rfl
  | cons v vs ih =>
    unfold askEach
    dsimp only
    split
    · rfl
    · exact ih

theorem askEach_principal {p : Permission} {vs : List Value}
    (h : (askEach s.toSubject p vs state).result = .ok ()) : ∀ v ∈ vs, Implied s.grants p v := by
  induction vs with
  | nil => exact List.forall_mem_nil _
  | cons v vs ih =>
    have hjudge : s.toSubject.judge p v state = s.judge p v state := rfl
    unfold askEach at h
    rw [hjudge] at h
    unfold PrincipalSubject.judge at h
    by_cases ha : s.allows p v = true
    · rw [if_pos ha] at h
      rw [List.forall_mem_cons]
      exact ⟨PrincipalSubject.allows_iff.1 ha, ih h⟩
    · rw [if_neg ha] at h
      cases h

theorem checkOne_principal_state (r : Requirement) (v : Value) :
    (checkOne s.toSubject r v state).state = state := by
  rcases v.list_cases with ⟨items, rfl⟩ | hv
  · rw [checkOne]
    rcases checkCollection_cases s.toSubject r state items with
      ⟨e, -, he⟩ | ⟨candidates, -, ⟨d, -, he⟩ | ⟨-, events, he⟩⟩ <;> rw [he]
    · exact s.narrow_state r.permission candidates
    · exact s.narrow_state r.permission candidates
  · rw [checkOne_of_not_list hv]
    rcases checkScalar_cases s.toSubject r v state with ⟨e, -, he⟩ | ⟨w, -, he⟩ <;> rw [he]
    exact askEach_principal_state r.permission w.leaves

/-- The elements that survive the subject of a principal are those on which the requirement is
granted: its set of candidates is determined by their texts. -/
theorem survivors_principal (r : Requirement) {candidates : CandidateSet} {items : List Value}
    (h : r.selector.project items = .ok candidates) :
    survivors r.selector candidates (candidates.retain (s.allows r.permission)) items =
      grantedElements s.grants [r] items := by
  unfold survivors grantedElements
  apply List.filter_congr
  intro element helement
  rw [Bool.eq_iff_iff, Bool.and_eq_true, decide_eq_true_iff, List.forall_mem_singleton,
    Selector.retains_eq_true, Selector.retains_eq_true]
  constructor
  · rintro ⟨-, w, hw, hmem⟩
    rw [CandidateSet.mem_retain, PrincipalSubject.allows_iff] at hmem
    exact ⟨w, hw, hmem.2⟩
  · rintro ⟨w, hw, hi⟩
    -- the value was a candidate, since its element was projected
    have hmem : w ∈ candidates := (Selector.mem_of_project h).2 ⟨element, helement, hw⟩
    refine ⟨⟨w, hw, hmem⟩, w, hw, ?_⟩
    rw [CandidateSet.mem_retain, PrincipalSubject.allows_iff]
    exact ⟨hmem, hi⟩

theorem checkOne_mediates {r : Requirement} {v : Value}
    (h : (checkOne s.toSubject r v state).result.verdict = .ok ()) :
    Mediated s.grants [r] v (checkOne s.toSubject r v state).result.value := by
  rcases v.list_cases with ⟨items, rfl⟩ | hv
  · rw [checkOne] at h ⊢
    rcases checkCollection_cases s.toSubject r state items with
      ⟨e, -, he⟩ | ⟨candidates, hp, ⟨d, -, he⟩ | ⟨hok, events, he⟩⟩
    · rw [he] at h; cases h
    · rw [he] at h; cases h
    · have hleft : (s.toSubject.narrow r.permission candidates state).left =
          candidates.retain (s.allows r.permission) := PrincipalSubject.narrow_left hok
      rw [he]
      dsimp only
      rw [hleft, survivors_principal r hp]
      exact .elements items
  · rw [checkOne_of_not_list hv] at h ⊢
    refine .whole hv ?_
    rw [List.forall_mem_singleton]
    rcases checkScalar_cases s.toSubject r v state with ⟨e, -, he⟩ | ⟨w, hw, he⟩
    · rw [he] at h; cases h
    · rw [he] at h
      dsimp only at h
      cases hask : (askEach s.toSubject r.permission w.leaves state).result with
      | error d => rw [hask] at h; cases h
      | ok _ => exact ⟨w, hw, askEach_principal hask⟩

/-- A principal keeps no state, so checks leave the state as it is. -/
theorem check_principal_state (rs : List Requirement) (v : Value) :
    (check s.toSubject method rs v state).state = state := by
  induction rs generalizing v with
  | nil => rfl
  | cons r rs ih =>
    have hfirst : (checkOne s.toSubject r v state).state = state := checkOne_principal_state r v
    cases h : (checkOne s.toSubject r v state).result.verdict with
    | error e => rw [check_cons_of_error h]; exact hfirst
    | ok _ =>
      rw [check_cons_of_ok h]
      dsimp only
      rw [hfirst]
      exact ih _

/-- **Requirements that are all met mediate a value.** -/
theorem check_mediates {rs : List Requirement} {v : Value}
    (h : (check s.toSubject method rs v state).result.verdict = .ok ()) :
    Mediated s.grants rs v (check s.toSubject method rs v state).result.value := by
  induction rs generalizing v state with
  | nil => exact .nil v
  | cons r rs ih =>
    cases hr : (checkOne s.toSubject r v state).result.verdict with
    | error e =>
      rw [check_cons_of_error hr] at h
      dsimp only at h
      rw [hr] at h
      cases h
    | ok _ =>
      -- the other requirements see what the first one left
      rw [check_cons_of_ok hr] at h ⊢
      exact (checkOne_mediates hr).cons (ih h)

/-! ## The arguments of a call -/

theorem checkArguments_principal_state (ps : List ParameterPolicy) (arguments : Arguments) :
    (checkArguments s.toSubject method ps arguments state).state = state := by
  induction ps generalizing arguments with
  | nil => rfl
  | cons p ps ih =>
    rcases argument_cases arguments p.index with hi | ⟨hi, hn⟩ | ⟨v, hv, hn⟩
    · rw [checkArguments_missing hi]
    · rw [checkArguments_null hi hn]
      exact ih arguments
    · have hfirst : (check s.toSubject method p.requirements v state).state = state :=
        check_principal_state p.requirements v
      cases hc : (check s.toSubject method p.requirements v state).result.verdict with
      | error e => rw [checkArguments_of_error hv hn hc]; exact hfirst
      | ok _ =>
        rw [checkArguments_of_ok hv hn hc]
        dsimp only
        rw [hfirst]
        exact ih _

/-- **A stage that passes mediates each argument.** The slot of a parameter is not touched again
by the parameters after it. -/
theorem checkArguments_mediates {ps : List ParameterPolicy} (hasc : ByPosition ps)
    {arguments : Arguments}
    (h : (checkArguments s.toSubject method ps arguments state).result.1 = .ok ()) :
    ∀ p ∈ ps, ∀ v, arguments[p.index]? = some (some v) → v.isNull = false →
      ∃ w, (checkArguments s.toSubject method ps arguments state).result.2[p.index]? =
          some (some w) ∧ Mediated s.grants p.requirements v w := by
  induction ps generalizing arguments state with
  | nil => exact List.forall_mem_nil _
  | cons p ps ih =>
    obtain ⟨-, hps⟩ := List.pairwise_cons.1 hasc
    have hlt := hasc.lt_of_cons
    rw [List.forall_mem_cons]
    rcases argument_cases arguments p.index with hi | ⟨hi, hn⟩ | ⟨u, hu, hn⟩
    · rw [checkArguments_missing hi] at h; cases h
    · rw [checkArguments_null hi hn] at h ⊢
      refine ⟨?_, ih hps h⟩
      intro v hv hvn
      rw [argumentAt_of_getElem? hv, hvn] at hn
      cases hn
    · obtain ⟨hi, -⟩ := List.getElem?_eq_some_iff.1 hu
      cases hc : (check s.toSubject method p.requirements u state).result.verdict with
      | error e => rw [checkArguments_of_error hu hn hc] at h; cases h
      | ok _ =>
        rw [checkArguments_of_ok hu hn hc] at h ⊢
        dsimp only at h ⊢
        have hmed := check_mediates hc
        generalize check s.toSubject method p.requirements u state = first at h hmed ⊢
        refine ⟨?_, ?_⟩
        · -- the parameters after this one leave its slot alone
          intro v hv _
          cases hu.symm.trans hv
          have hnot : p.index ∉ ps.map (·.index) := fun hmem => Nat.lt_irrefl _ (hlt _ hmem)
          refine ⟨first.result.value, ?_, hmed⟩
          rw [(checkArguments_narrowed ps _).eq_of_not_mem hnot, List.getElem?_set_self hi]
        · intro q hq v hv hvn
          have hne : p.index ≠ q.index := Nat.ne_of_lt (hlt q.index (List.mem_map_of_mem hq))
          refine ih hps h q hq v ?_ hvn
          rw [List.getElem?_set_ne hne, hv]

/-! ## Whole calls -/

/-- A result that comes back from a check is what the check left of it. -/
theorem Checked.of_delivered {checked : Checked Value} {w : Value}
    (h : (checked.delivered : Except (InvocationError ε) (Option Value)) = .ok (some w)) :
    checked.verdict = .ok () ∧ checked.value = w := by
  unfold Checked.delivered at h
  cases hv : checked.verdict with
  | error e => rw [hv] at h; cases h
  | ok _ => rw [hv] at h; cases h; exact ⟨rfl, rfl⟩

/-- A result that is returned and is no null was there to be checked, and passed. -/
theorem closing_mediates {rs : List Requirement} {operation : GuardedOperation τ ε}
    {arguments : Arguments} {w : Value} (hn : w.isNull = false)
    (h : (closing s.toSubject method rs operation arguments state).result.result =
      .ok (some w)) :
    ∃ v, (operation arguments state).result = .ok (some v) ∧ Mediated s.grants rs v w := by
  rcases closing_cases s.toSubject method rs operation arguments state with
    ⟨e, -, he⟩ | ⟨value, -, hnull, he⟩ | ⟨v, hv, -, he⟩
  · rw [he] at h; cases h
  · rw [he] at h
    cases h
    rw [Option.getD_some, hn] at hnull
    cases hnull
  · rw [he] at h
    obtain ⟨hok, rfl⟩ := Checked.of_delivered h
    exact ⟨v, hv, check_mediates hok⟩

section Calls

variable {σ : Type} {g : Guard} {policy : MethodPolicy} {arguments : Arguments}
  {operation : GuardedOperation (World σ) ε} {world : World σ}

/-- What the first stage of a call leaves when it passes. -/
theorem opening_mediates (on : g.isEnabled world.switches = true)
    (hm : g.registry.get? method = some policy)
    (hok : (g.opening s.toSubject method arguments world).result.1 = .ok ()) :
    let seen := (g.opening s.toSubject method arguments world).result.2
    (∀ i ∈ policy.parameters.keys, i < arguments.length) ∧
    seen.length = arguments.length ∧
    (∀ i, i ∉ policy.parameters.keys ∨ (argumentAt arguments i).isNull = true →
      seen[i]? = arguments[i]?) ∧
    ∀ i p v, policy.parameters.get? i = some p → arguments[i]? = some (some v) →
      v.isNull = false →
      ∃ w, seen[i]? = some (some w) ∧ Mediated s.grants p.requirements v w := by
  dsimp only
  have hnarrowed := opening_narrowed s.toSubject arguments world hm
  rw [Guard.opening_registered on hm] at hok hnarrowed ⊢
  obtain ⟨visits, hopens⟩ := checkArguments_opens s.toSubject method
    policy.parameters.values policy.byPosition_values arguments world
  have hinside := (hopens.ok_iff.1 hok).2
  rw [policy.map_index_values] at hinside
  refine ⟨hinside, hnarrowed.length_eq, ?_, ?_⟩
  · intro i hi
    rcases hnarrowed.slot i with he | ⟨hmem, items, rest, hlist, -, -⟩
    · exact he
    · rcases hi with hnot | hnull
      · exact absurd hmem hnot
      · rw [argumentAt_of_getElem? hlist] at hnull
        cases hnull
  · intro i p v hp hv hn
    obtain ⟨hmem, rfl⟩ := MethodPolicy.get?_parameters_eq_some_iff.1 hp
    exact checkArguments_mediates policy.byPosition_values hok p hmem v hv hn

/-- What a call returns was returned by its operation, in the world in which the call began. -/
theorem returned_mediates (on : g.isEnabled world.switches = true)
    (hm : g.registry.get? method = some policy) {w : Value}
    (hw : (g.invoke s.toSubject method arguments operation world).result.result = .ok (some w))
    (hn : w.isNull = false) :
    ∃ seen v, .started seen ∈ (g.invoke s.toSubject method arguments operation world).effects ∧
      (operation seen world).result = .ok (some v) ∧ Mediated s.grants policy.returns v w := by
  cases hok : (g.opening s.toSubject method arguments world).result.1 with
  | error e => rw [Guard.invoke_of_error hok] at hw; cases hw
  | ok _ =>
    refine ⟨(g.opening s.toSubject method arguments world).result.2, ?_⟩
    have hstate : (g.opening s.toSubject method arguments world).state = world := by
      rw [Guard.opening_registered on hm, checkArguments_principal_state]
    rw [Guard.invoke_of_ok hok, Guard.resultRequirements_registered on hm] at hw
    dsimp only at hw
    rw [hstate] at hw
    obtain ⟨v, hv, hmed⟩ := closing_mediates hn hw
    exact ⟨v, Guard.started_iff.2 ⟨hok, rfl⟩, hv, hmed⟩

end Calls

end Principal

/-- **Exact mediation.** Where the operation of a checked call is started for a principal, all
declared positions are there; slots that are absent, null or not declared are as they were, and
each other slot is mediated by the requirements on its parameter, as the effective grants of the
principal have it. A result that is returned and is no null is mediated in the same way. -/
theorem invoke_mediates {σ : Type} (g : Guard) (who : Principal) (roles : RolePolicy)
    (method : String) (policy : MethodPolicy) (arguments : Arguments)
    (operation : GuardedOperation (World σ) ε) (world : World σ)
    (on : g.isEnabled world.switches = true) (hm : g.registry.get? method = some policy) :
    let grants := roles.effective who
    let run := g.invoke (PrincipalSubject.of who roles).toSubject method arguments operation world
    (∀ seen, .started seen ∈ run.effects →
      (∀ i ∈ policy.parameters.keys, i < arguments.length) ∧
      seen.length = arguments.length ∧
      (∀ i, i ∉ policy.parameters.keys ∨ (argumentAt arguments i).isNull = true →
        seen[i]? = arguments[i]?) ∧
      ∀ i p v, policy.parameters.get? i = some p → arguments[i]? = some (some v) →
        v.isNull = false →
        ∃ w, seen[i]? = some (some w) ∧ Mediated grants p.requirements v w) ∧
    ∀ w, run.result.result = .ok (some w) → w.isNull = false →
      ∃ seen v, .started seen ∈ run.effects ∧ (operation seen world).result = .ok (some v) ∧
        Mediated grants policy.returns v w := by
  dsimp only
  refine ⟨?_, fun w hw hn => returned_mediates on hm hw hn⟩
  intro seen hseen
  obtain ⟨hok, rfl⟩ := Guard.started_iff.1 hseen
  exact opening_mediates on hm hok

namespace Sample

/-- Cases of the north may be viewed. -/
def northGrant : Grant :=
  ⟨"case:view:north", [.oneOf ["case"], .oneOf ["view"], .oneOf ["north"]], by decide +kernel⟩

/-- May view the cases of the north. -/
def viewer : Principal := ⟨⟨List.replicate 32 ⟨0, by decide⟩, rfl⟩, [], [northGrant]⟩

end Sample

/-- Of the cases of two counties one is let through, to the operation and to the caller. -/
theorem invoke_mediates_sample :
    let grants := RolePolicy.empty.effective Sample.viewer
    let run := Sample.guard.invoke (PrincipalSubject.of Sample.viewer .empty).toSubject
      "cases.list" Sample.arguments Sample.first Sample.world
    let north := [some (.list [Sample.case "north"]), none]
    Sample.guard.isEnabled Sample.world.switches = true ∧
    Sample.guard.registry.get? "cases.list" = some Sample.policy ∧
    .started north ∈ run.effects ∧
    (∃ w, north[0]? = some (some w) ∧ Mediated grants [Sample.byCounty "cases"]
      (.list [Sample.case "north", Sample.case "south"]) w) ∧
    ∃ v, Mediated grants [Sample.byCounty "r"] v (.list [Sample.case "north"]) := by
  intro grants run north
  have on : Sample.guard.isEnabled Sample.world.switches = true := by decide
  have hm : Sample.guard.registry.get? "cases.list" = some Sample.policy := by decide
  have hstarted : .started north ∈ run.effects := by decide +kernel
  have hresult : run.result.result = .ok (some (.list [Sample.case "north"])) := rfl
  obtain ⟨hseen, hreturned⟩ := invoke_mediates Sample.guard Sample.viewer .empty "cases.list"
    Sample.policy Sample.arguments Sample.first Sample.world on hm
  obtain ⟨-, -, -, hslot⟩ := hseen north hstarted
  obtain ⟨-, v, -, -, hmediated⟩ := hreturned _ hresult rfl
  exact ⟨on, hm, hstarted, hslot 0 _ _ rfl rfl rfl, v, hmediated⟩

end AccessGuard
