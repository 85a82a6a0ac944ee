import AccessGuard.Proofs.Documents
import AccessGuard.Proofs.Failures
import AccessGuard.Session

/-!
# Registries as they can be made

A registry is made from nothing by registering policies that were built, or from a document. What
it holds is therefore what was declared: requirements are compiled from their own permissions and
stand in the order in which they were written, parameters stand under the positions that they were
declared for, and the order in which they were declared does not show.

* `MethodPolicy.Arranged`: what a policy holds of its declarations.
* `MethodPolicy.arranged_of_build`: every policy that is built is arranged.
* `Registry.Reachable.built`: every policy that is held was built.
* `Guard.registry_invariant`: registries that can be made, and the guards in front of them.
-/

namespace AccessGuard

namespace MethodPolicy

variable {p : MethodPolicy} {ds : List Declaration}

theorem mem_parametersOf {index : Nat} {name : String} {texts : List String} :
    (index, name, texts) ∈ parametersOf ds ↔ .parameter index name texts ∈ ds := by
  unfold parametersOf
  rw [List.mem_filterMap]
  constructor
  · rintro ⟨d, hd, hp⟩
    cases d with
    | parameter => cases hp; exact hd
    | returns => cases hp
  · intro h
    exact ⟨_, h, rfl⟩

/-- **What a policy holds of its declarations.** -/
structure Arranged (ds : List Declaration) (p : MethodPolicy) : Prop where
  /-- Under a position stands what was declared for it, with this position and one requirement
  for each text. -/
  own : ∀ i q, p.parameters.get? i = some q ↔ q.index = i ∧
    ∃ texts, .parameter i q.name texts ∈ ds ∧
      List.Forall₂ (fun text r => Requirement.compile text (some q.name) = .ok r) texts
        q.requirements
  /-- Every parameter that was declared is there. -/
  declared : ∀ i name texts, .parameter i name texts ∈ ds →
    ∃ q, p.parameters.get? i = some q ∧ q.name = name
  /-- The parameters are listed by position. -/
  ascending : ByPosition p.parameters.values
  indices : p.parameters.values.map (·.index) = p.parameters.keys
  compiled : ∀ q ∈ p.parameters.values, ∀ r ∈ q.requirements,
    Selector.compile r.permission = .ok r.selector ∧ r.selector.binding = q.name
  /-- The declarations on the result, one after the other. -/
  returns : List.Forall₂ (fun text r => Requirement.compile text none = .ok r)
    (resultTextsOf ds) p.returns
  returns_compiled : ∀ r ∈ p.returns, Selector.compile r.permission = .ok r.selector
  result_slot : p.requirements .result = p.returns
  parameter_slot : ∀ i q, (i, q) ∈ p.parameters.entries →
    p.requirements (.parameter i) = q.requirements
  undeclared_slot : ∀ i, i ∉ p.parameters.keys → p.requirements (.parameter i) = []
  /-- The same declarations with the parameters in another order make the same policy. -/
  anyOrder : ∀ es, (parametersOf es).Perm (parametersOf ds) →
    resultTextsOf es = resultTextsOf ds → build es = .ok p

namespace MadeBy

variable (h : p.MadeBy ds)

include h

theorem get?_iff (i : Nat) (q : ParameterPolicy) :
    p.parameters.get? i = some q ↔ q.index = i ∧ ∃ texts, .parameter i q.name texts ∈ ds ∧
      Requirement.compileAll (some q.name) texts = .ok q.requirements := by
  rw [h.parameters.get?_iff]
  constructor
  · rintro ⟨⟨name, texts⟩, hmem, hread⟩
    obtain ⟨hindex, rfl, hcompiled⟩ := readParameter_eq_ok_iff.1 hread
    exact ⟨hindex, texts, mem_parametersOf.1 hmem, hcompiled⟩
  · rintro ⟨hindex, texts, hmem, hcompiled⟩
    exact ⟨(q.name, texts), mem_parametersOf.2 hmem,
      readParameter_eq_ok_iff.2 ⟨hindex, rfl, hcompiled⟩⟩

theorem exists_declared {i : Nat} {name : String} {texts : List String}
    (hmem : .parameter i name texts ∈ ds) :
    ∃ q, p.parameters.get? i = some q ∧ q.name = name := by
  obtain ⟨q, hq⟩ := h.parameters.readable _ (mem_parametersOf.2 hmem)
  obtain ⟨-, rfl, -⟩ := readParameter_eq_ok_iff.1 hq
  exact ⟨q, (h.parameters.get?_iff i q).2 ⟨_, mem_parametersOf.2 hmem, hq⟩, rfl⟩

theorem compiled {q : ParameterPolicy} (hq : q ∈ p.parameters.values) {r : Requirement}
    (hr : r ∈ q.requirements) :
    Selector.compile r.permission = .ok r.selector ∧ r.selector.binding = q.name := by
  -- what stands in the table was declared, and its texts were compiled for its name
  obtain ⟨⟨i, q⟩, hentry, rfl⟩ := List.mem_map.1 hq
  obtain ⟨-, texts, -, hcompiled⟩ := (h.get?_iff i q).1 (Table.get?_eq_some_iff.2 hentry)
  obtain ⟨hselector, hbinding⟩ := Requirement.compiled_of_compileAll hcompiled hr
  exact ⟨hselector, hbinding q.name rfl⟩

end MadeBy

theorem requirements_of_declared {i : Nat} {q : ParameterPolicy}
    (h : (i, q) ∈ p.parameters.entries) : p.requirements (.parameter i) = q.requirements := by
  rw [requirements, parameterRequirements, Table.get?_eq_some_iff.2 h]

theorem requirements_of_undeclared {i : Nat} (h : i ∉ p.parameters.keys) :
    p.requirements (.parameter i) = [] := by
  rw [requirements, parameterRequirements]
  cases hi : p.parameters.get? i with
  | none => rfl
  | some q => exact absurd (List.mem_map_of_mem (Table.mem_entries_of_get? hi)) h

/-- **Every policy that is built is arranged.** -/
theorem arranged_of_build (h : build ds = .ok p) : p.Arranged ds := by
  have made : p.MadeBy ds := build_eq_ok_iff.1 h
  exact {
    own := by
      intro i q
      rw [made.get?_iff]
      simp only [Requirement.compileAll_eq_ok_iff]
    declared := fun i name texts hmem => made.exists_declared hmem
    ascending := p.byPosition_values
    indices := p.map_index_values
    compiled := fun q hq r hr => made.compiled hq hr
    returns := Requirement.compileAll_eq_ok_iff.1 made.returns
    returns_compiled := fun r hr => (Requirement.compiled_of_compileAll made.returns hr).1
    result_slot := rfl
    parameter_slot := fun i q hq => requirements_of_declared hq
    undeclared_slot := fun i hi => requirements_of_undeclared hi
    anyOrder := fun es hp hr => build_perm h hp.symm hr.symm }

end MethodPolicy

/-! ## Registries that can be made -/

/-- **The registries that can be made**: from nothing, by registering policies that were built, or
from a document. -/
inductive Registry.Reachable : Registry → Prop where
  | empty : Reachable .empty
  | register {r s : Registry} {ds : List Declaration} {p : MethodPolicy} {name : String} :
      Reachable r → MethodPolicy.build ds = .ok p → r.register name p = .ok s → Reachable s
  | document {text : String} {r : Registry} : Registry.ofText text = .ok r → Reachable r

namespace Registry

variable {r s : Registry} {name method : String} {p q : MethodPolicy}

/-- What a registry holds after a registration was there before, or is what was registered. -/
theorem get?_of_register (h : r.register name p = .ok s) (hq : s.get? method = some q) :
    r.get? method = some q ∨ q = p := by
  obtain ⟨-, rfl⟩ := register_eq_ok_iff.1 h
  unfold get? at hq
  rw [Table.get?_insert] at hq
  split at hq
  · exact .inr (Option.some.inj hq).symm
  · exact .inl hq

theorem built_of_ofText {text : String} (h : ofText text = .ok r) (hp : r.get? method = some p) :
    ∃ ds, MethodPolicy.build ds = .ok p := by
  cases hd : Tree.decodeText decodeDocument text with
  | error e =>
    unfold ofText at h
    rw [hd] at h
    cases h
  | ok document =>
    rw [ofText_of_decoded hd] at h
    obtain ⟨entry, -, hbuild⟩ := (get?_of_ofDocument h).1 hp
    exact ⟨entry.declarations, hbuild⟩

/-- **Whatever is held was built.** -/
theorem Reachable.built (h : r.Reachable) (hp : r.get? method = some p) :
    ∃ ds, MethodPolicy.build ds = .ok p := by
  induction h with
  | empty => cases hp
  | register _ hbuild hregister ih =>
    rcases get?_of_register hregister hp with hp | rfl
    · exact ih hp
    · exact ⟨_, hbuild⟩
  | document hread => exact built_of_ofText hread hp

end Registry

/-! ## Guards in front of them -/

/-- **What holds of every registry that can be made**, and of the guard in front of it: every
policy is arranged as it was declared, and neither a check nor a call ever fails for an identifier
that is not bound. For checks this is so whatever the requirements are. -/
theorem Guard.registry_invariant {σ ε : Type} (g : Guard) (h : g.registry.Reachable)
    (method : String) :
    (∀ p, g.registry.get? method = some p → ∃ ds, MethodPolicy.build ds = .ok p ∧ p.Arranged ds) ∧
    (∀ (subject : Subject (World σ)) (rs : List Requirement) (v : Value) (world : World σ)
      (text binding : String), (check subject method rs v world).result.verdict ≠
        .error (.evaluation ⟨text, .unbound binding⟩)) ∧
    ∀ (subject : Subject (World σ)) (arguments : Arguments)
      (operation : GuardedOperation (World σ) ε) (world : World σ) (text binding : String),
      (g.invoke subject method arguments operation world).result.result ≠
        .error (.guard (.evaluation ⟨text, .unbound binding⟩)) := by
  refine ⟨?_, ?_, ?_⟩
  · intro p hp
    obtain ⟨ds, hds⟩ := h.built hp
    exact ⟨ds, hds, MethodPolicy.arranged_of_build hds⟩
  · intro subject rs v world text binding hfails
    obtain ⟨r, -, hr⟩ := check_fails hfails
    exact hr.ne_unbound text binding rfl
  · intro subject arguments operation world text binding hfails
    rcases Guard.invoke_fails hfails with
      ⟨i, n, he⟩ | ⟨policy, -, ⟨q, -, r, -, v, hr⟩ | ⟨r, -, v, hr⟩⟩
    · cases he
    · exact hr.ne_unbound text binding rfl
    · exact hr.ne_unbound text binding rfl

namespace Sample

/-- The declarations of the sample policy, its result first. -/
def declarations : List Declaration :=
  [.returns ["case:view:r.county"], .parameter 0 "cases" ["case:view:cases.county"]]

end Sample

/-- The sample guard stands in front of a registry that can be made. -/
theorem Guard.registry_invariant_sample :
    Sample.guard.registry.Reachable ∧
      (∃ ds, MethodPolicy.build ds = .ok Sample.policy ∧ Sample.policy.Arranged ds) ∧
      ∀ (subject : Subject (World Unit)) (text binding : String),
        (Sample.guard.invoke subject "cases.list" Sample.arguments Sample.first
            Sample.world).result.result ≠
          .error (.guard (.evaluation ⟨text, .unbound binding⟩)) := by
  have hbuild : MethodPolicy.build Sample.declarations = .ok Sample.policy := by decide +kernel
  have hregister : Registry.empty.register "cases.list" Sample.policy =
      .ok Sample.guard.registry := by decide
  have h : Sample.guard.registry.Reachable := .register .empty hbuild hregister
  obtain ⟨hpolicy, -, hinvoke⟩ := Guard.registry_invariant Sample.guard h "cases.list"
  exact ⟨h, hpolicy _ (by decide), fun subject text binding => hinvoke subject _ _ _ text binding⟩

end AccessGuard
