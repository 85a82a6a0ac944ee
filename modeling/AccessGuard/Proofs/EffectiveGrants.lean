import AccessGuard.Proofs.Decisions

/-!
# Effective grants

The effective grants of a principal begin with its own, as they are. What its roles receive is
looked at role by role, and a grant is put behind the others if it is not among them yet. So what
comes behind the principal's own grants is new, each grant once and in the order in which it is
first received; and where all that is received is there already, nothing is put behind.

A decision only asks whether some effective grant implies or covers what is required. It does not
show in which order, or how often, roles and grants are listed.

* `RolePolicy.grantsFor_ofGrants`: what a role receives by grants to roles, one after the other.
* `addNew_firstNew`: what is put behind a list that is searched while it grows.
* `PrincipalSubject.toSubject_congr`: subjects with the same effective grants, in any order.
* `effective_exact`: effective grants, and decisions by them.
-/

namespace AccessGuard

/-! ## New elements of a list -/

section New

variable {α : Type} [DecidableEq α] {known xs extra : List α} {x : α}

/-- **What is new of a list**: the elements that are not known, each of them once, by the places at
which they first occur. -/
structure FirstNew (known xs extra : List α) : Prop where
  nodup : extra.Nodup
  mem_iff : ∀ x, x ∈ extra ↔ x ∈ xs ∧ x ∉ known
  inOrder : extra.Pairwise fun x y => xs.idxOf x < xs.idxOf y

namespace FirstNew

theorem nil (known : List α) : FirstNew known [] [] where
  nodup := List.nodup_nil
  mem_iff x := by simp
  inOrder := List.Pairwise.nil

/-- An element further in front moves the others by one place. -/
theorem pairwise_cons (hne : ∀ y ∈ extra, y ≠ x)
    (h : extra.Pairwise fun y z => xs.idxOf y < xs.idxOf z) :
    extra.Pairwise fun y z => (x :: xs).idxOf y < (x :: xs).idxOf z := by
  refine h.imp_of_mem ?_
  intro y z hy hz hlt
  have hxy : x ≠ y := (hne y hy).symm
  have hxz : x ≠ z := (hne z hz).symm
  rw [List.idxOf_cons_ne xs hxy, List.idxOf_cons_ne xs hxz]
  omega

/-- A known element is not new. -/
theorem cons_known (hx : x ∈ known) (h : FirstNew known xs extra) :
    FirstNew known (x :: xs) extra where
  nodup := h.nodup
  mem_iff y := by
    have hne : y ∉ known → y ≠ x := fun hy he => hy (he ▸ hx)
    rw [h.mem_iff, List.mem_cons]
    constructor
    · rintro ⟨hmem, hy⟩
      exact ⟨.inr hmem, hy⟩
    · rintro ⟨hmem, hy⟩
      exact ⟨hmem.resolve_left (hne hy), hy⟩
  inOrder := by
    refine pairwise_cons ?_ h.inOrder
    rintro y hy rfl
    exact ((h.mem_iff y).1 hy).2 hx

/-- An element that is not known comes first, and is known from there on. -/
theorem cons_new (hx : x ∉ known) (h : FirstNew (known ++ [x]) xs extra) :
    FirstNew known (x :: xs) (x :: extra) := by
  have hlater : ∀ y ∈ extra, y ∉ known ∧ y ≠ x := by
    intro y hy
    have hnot : y ∉ known ++ [x] := ((h.mem_iff y).1 hy).2
    rw [List.mem_append, List.mem_singleton, not_or] at hnot
    exact hnot
  refine ⟨?_, ?_, ?_⟩
  · rw [List.nodup_cons]
    exact ⟨fun hmem => (hlater x hmem).2 rfl, h.nodup⟩
  · intro y
    rw [List.mem_cons, List.mem_cons, h.mem_iff, List.mem_append, List.mem_singleton, not_or]
    by_cases hyx : y = x
    · subst hyx
      simp [hx]
    · simp [hyx]
  · rw [List.pairwise_cons]
    refine ⟨?_, pairwise_cons (fun y hy => (hlater y hy).2) h.inOrder⟩
    intro y hy
    have hxy : x ≠ y := (hlater y hy).2.symm
    rw [List.idxOf_cons_self, List.idxOf_cons_ne xs hxy]
    exact Nat.succ_pos _

/-- **What is new is one list only.** -/
theorem unique {other : List α} (h : FirstNew known xs extra) (ho : FirstNew known xs other) :
    extra = other := by
  have hperm : extra.Perm other := by
    rw [List.perm_ext_iff_of_nodup h.nodup ho.nodup]
    intro x
    rw [h.mem_iff, ho.mem_iff]
  refine hperm.eq_of_pairwise ?_ h.inOrder ho.inOrder
  intro x y _ _ hxy hyx
  omega

end FirstNew

/-- **What is put behind a list**, which is searched as far as it has grown. -/
theorem addNew_firstNew (known xs : List α) :
    ∃ extra, addNew known xs = known ++ extra ∧ FirstNew known xs extra := by
  induction xs generalizing known with
  | nil => exact ⟨[], (List.append_nil known).symm, .nil known⟩
  | cons x xs ih =>
    rw [addNew]
    by_cases hx : x ∈ known
    · obtain ⟨extra, heq, hnew⟩ := ih known
      rw [if_pos hx]
      exact ⟨extra, heq, hnew.cons_known hx⟩
    · obtain ⟨extra, heq, hnew⟩ := ih (known ++ [x])
      rw [if_neg hx]
      refine ⟨x :: extra, ?_, hnew.cons_new hx⟩
      rw [heq, List.append_assoc, List.singleton_append]

/-- **Behind a list stands what is new**, and nothing else could. -/
theorem addNew_eq_append_iff : addNew known xs = known ++ extra ↔ FirstNew known xs extra := by
  obtain ⟨behind, heq, hnew⟩ := addNew_firstNew known xs
  rw [heq, List.append_cancel_left_eq]
  constructor
  · rintro rfl
    exact hnew
  · intro h
    exact hnew.unique h

theorem mem_addNew : x ∈ addNew known xs ↔ x ∈ known ∨ x ∈ xs := by
  obtain ⟨extra, heq, hnew⟩ := addNew_firstNew known xs
  rw [heq, List.mem_append, hnew.mem_iff]
  by_cases hx : x ∈ known <;> simp [hx]

/-- Where everything is known nothing is put behind. -/
theorem addNew_of_subset (h : ∀ x ∈ xs, x ∈ known) : addNew known xs = known := by
  obtain ⟨extra, heq, hnew⟩ := addNew_firstNew known xs
  have hnil : extra = [] := by
    rw [List.eq_nil_iff_forall_not_mem]
    intro x hx
    obtain ⟨hmem, hnot⟩ := (hnew.mem_iff x).1 hx
    exact hnot (h x hmem)
  rw [heq, hnil, List.append_nil]

end New

/-! ## What roles receive -/

/-- What a role receives by grants to roles, in their order. -/
def grantsTo (given : List (String × Grant)) (role : String) : List Grant :=
  (given.filter fun entry => decide (entry.1 = role)).map (·.2)

/-- What roles receive, role by role. -/
def received (given : List (String × Grant)) (roles : List String) : List Grant :=
  roles.flatMap (grantsTo given)

theorem mem_grantsTo {given : List (String × Grant)} {role : String} {g : Grant} :
    g ∈ grantsTo given role ↔ (role, g) ∈ given := by
  unfold grantsTo
  simp only [List.mem_map, List.mem_filter, decide_eq_true_eq]
  constructor
  · rintro ⟨⟨_, _⟩, ⟨hmem, rfl⟩, rfl⟩
    exact hmem
  · intro hmem
    exact ⟨(role, g), ⟨hmem, rfl⟩, rfl⟩

theorem mem_received {given : List (String × Grant)} {roles : List String} {g : Grant} :
    g ∈ received given roles ↔ ∃ role ∈ roles, (role, g) ∈ given := by
  unfold received
  simp only [List.mem_flatMap, mem_grantsTo]

namespace RolePolicy

variable {policy : RolePolicy} {who : Principal} {given : List (String × Grant)}

/-- The policy of grants to roles, one after the other. -/
def ofGrants (given : List (String × Grant)) : RolePolicy :=
  given.foldl (fun policy entry => policy.grant entry.1 entry.2) .empty

/-- One more grant goes behind those of its role, and no other role sees it. -/
theorem grantsFor_grant (policy : RolePolicy) (role other : String) (g : Grant) :
    (policy.grant role g).grantsFor other =
      if other = role then policy.grantsFor other ++ [g] else policy.grantsFor other := by
  unfold grantsFor grant
  rw [Table.get?_insert]
  by_cases h : other = role
  · rw [if_pos h, if_pos h, h]
    rfl
  · rw [if_neg h, if_neg h]

/-- **What a role receives** is in the policy in the order in which it was granted. -/
theorem grantsFor_ofGrants (given : List (String × Grant)) (role : String) :
    (ofGrants given).grantsFor role = grantsTo given role := by
  -- over the grants still to come, for any policy built so far
  suffices ∀ policy : RolePolicy,
      (given.foldl (fun policy entry => policy.grant entry.1 entry.2) policy).grantsFor role =
        policy.grantsFor role ++ grantsTo given role from this .empty
  induction given with
  | nil =>
    intro policy
    exact (List.append_nil _).symm
  | cons entry given ih =>
    intro policy
    have hto : grantsTo (entry :: given) role =
        (if role = entry.1 then [entry.2] else []) ++ grantsTo given role := by
      unfold grantsTo
      rw [List.filter_cons]
      by_cases h : role = entry.1 <;> simp [h, eq_comm]
    rw [List.foldl_cons, ih, grantsFor_grant, hto]
    by_cases h : role = entry.1
    · rw [if_pos h, if_pos h, List.append_assoc]
    · rw [if_neg h, if_neg h, List.nil_append]

theorem effective_ofGrants (given : List (String × Grant)) (who : Principal) :
    (ofGrants given).effective who = addNew who.grants (received given who.roles) := by
  have hroles : (ofGrants given).grantsFor = grantsTo given := funext (grantsFor_ofGrants given)
  unfold effective received
  rw [hroles]

theorem mem_effective {g : Grant} : g ∈ (ofGrants given).effective who ↔
    g ∈ who.grants ∨ ∃ role ∈ who.roles, (role, g) ∈ given := by
  rw [effective_ofGrants, mem_addNew, mem_received]

/-- **Effective grants stay as they are** when they are taken for the principal's own. -/
theorem effective_effective (policy : RolePolicy) (who : Principal) :
    policy.effective { who with grants := policy.effective who } = policy.effective who := by
  have hknown : ∀ g ∈ who.roles.flatMap policy.grantsFor, g ∈ policy.effective who := by
    intro g hg
    exact mem_addNew.2 (.inr hg)
  exact addNew_of_subset hknown

end RolePolicy

/-! ## Decisions -/

namespace PrincipalSubject

variable {σ : Type} {s t : PrincipalSubject}

/-- **Decisions do not show the order of grants**, nor how often they are listed. -/
theorem toSubject_congr (hid : s.id = t.id) (hgrants : ∀ g, g ∈ s.grants ↔ g ∈ t.grants) :
    (s.toSubject : Subject σ) = t.toSubject := by
  have hallows : s.allows = t.allows := by
    funext p v
    rw [Bool.eq_iff_iff, allows_iff, allows_iff]
    unfold Implied
    simp only [hgrants]
  have hcovers : s.covers = t.covers := by
    funext p
    rw [Bool.eq_iff_iff, covers_iff, covers_iff]
    simp only [hgrants]
  have hjudge : (s.judge : Permission → Value → σ → Judgement σ) = t.judge := by
    unfold judge
    rw [hallows, hid]
  have hnarrow : (s.narrow : Permission → CandidateSet → σ → Narrowing σ) = t.narrow := by
    unfold narrow
    rw [hallows, hcovers, hid]
  unfold toSubject
  rw [hjudge, hnarrow]

end PrincipalSubject

/-- **Effective grants.** They are the principal's own, as they are, and behind them what its roles
receive and it does not hold itself: each grant once, as it is first received role by role. Taken
for the principal's own they are the effective grants again. All decisions are the same for every
principal and policy with the same grants, in whatever order and however often these and the roles
are listed, and whatever roles are listed to which nothing is granted. -/
theorem effective_exact {σ : Type} (given : List (String × Grant)) (who : Principal) :
    let policy := RolePolicy.ofGrants given
    let grants := policy.effective who
    who.grants <+: grants ∧
    (∀ extra, grants = who.grants ++ extra ↔
      FirstNew who.grants (received given who.roles) extra) ∧
    policy.effective { who with grants := grants } = grants ∧
    ∀ (other : Principal) (regiven : List (String × Grant)), other.id = who.id →
      (∀ g, g ∈ other.grants ↔ g ∈ who.grants) →
      (∀ entry, entry ∈ regiven ↔ entry ∈ given) →
      (∀ role g, (role, g) ∈ given → (role ∈ other.roles ↔ role ∈ who.roles)) →
      ((PrincipalSubject.of other (RolePolicy.ofGrants regiven)).toSubject : Subject σ) =
        (PrincipalSubject.of who policy).toSubject := by
  dsimp only
  refine ⟨?_, ?_, RolePolicy.effective_effective _ who, ?_⟩
  · obtain ⟨extra, heq, -⟩ := addNew_firstNew who.grants (received given who.roles)
    rw [RolePolicy.effective_ofGrants]
    exact ⟨extra, heq.symm⟩
  · intro extra
    rw [RolePolicy.effective_ofGrants]
    exact addNew_eq_append_iff
  · intro other regiven hid hown hgiven hroles
    refine PrincipalSubject.toSubject_congr hid ?_
    intro g
    have hreceived : (∃ role ∈ other.roles, (role, g) ∈ regiven) ↔
        ∃ role ∈ who.roles, (role, g) ∈ given := by
      refine exists_congr fun role => ?_
      rw [hgiven]
      exact and_congr_left (hroles role g)
    unfold PrincipalSubject.of
    rw [RolePolicy.mem_effective, RolePolicy.mem_effective, hown, hreceived]

namespace Sample

/-- Cases of the north may be edited. -/
def editGrant : Grant := ⟨"case:edit:north", [.oneOf ["case"], .oneOf ["edit"], .oneOf ["north"]],
  by decide +kernel⟩

/-- Any case may be closed. -/
def closeGrant : Grant := ⟨"case:close", [.oneOf ["case"], .oneOf ["close"]], by decide +kernel⟩

/-- Two roles, one of which receives all that the other one does. -/
def rolesGiven : List (String × Grant) :=
  [("clerk", northGrant), ("clerk", editGrant), ("auditor", closeGrant), ("clerk", closeGrant)]

/-- Holds one of the grants itself, twice. -/
def clerk : Principal :=
  { viewer with roles := ["auditor", "clerk"], grants := [northGrant, northGrant] }

end Sample

/-- The clerk's roles add two grants, the one of its first role first. With the roles turned around,
one more of them that nobody knows, and the grants to roles the other way round, all decisions are
the same. -/
theorem effective_exact_sample :
    let who := Sample.clerk
    let other := { who with
      roles := ["clerk", "visitor", "auditor", "clerk"], grants := [Sample.northGrant] }
    let policy := RolePolicy.ofGrants Sample.rolesGiven
    policy.effective who = who.grants ++ [Sample.closeGrant, Sample.editGrant] ∧
    FirstNew who.grants (received Sample.rolesGiven who.roles)
      [Sample.closeGrant, Sample.editGrant] ∧
    policy.effective { who with grants := policy.effective who } = policy.effective who ∧
    ((PrincipalSubject.of other (RolePolicy.ofGrants Sample.rolesGiven.reverse)).toSubject :
      Subject Unit) = (PrincipalSubject.of who policy).toSubject := by
  intro who other policy
  have heffective : policy.effective who =
      who.grants ++ [Sample.closeGrant, Sample.editGrant] := by decide +kernel
  obtain ⟨-, hnew, hagain, hdecisions⟩ := effective_exact (σ := Unit) Sample.rolesGiven who
  refine ⟨heffective, (hnew _).1 heffective, hagain, ?_⟩
  refine hdecisions other Sample.rolesGiven.reverse rfl ?_ (fun entry => List.mem_reverse) ?_
  · intro g
    simp [other, who, Sample.clerk]
  · have hknown : ∀ entry ∈ Sample.rolesGiven,
        (entry.1 ∈ other.roles ↔ entry.1 ∈ who.roles) := by decide +kernel
    intro role g hgiven
    exact hknown (role, g) hgiven

end AccessGuard
