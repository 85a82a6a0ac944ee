import AccessGuard.Proofs.Collecting
import AccessGuard.Proofs.SelectorGrammar
import AccessGuard.Registry
import Mathlib.Data.List.Forall2

/-!
# Policies and registries, call by call

The policy of a method is built by declarations, on its parameters and on its result, and a
registry by registering such policies. A declaration is refused for a text that is no requirement,
and then for a position that is taken; a registration for a name that is taken.

* `Requirement.compileAll_eq_ok_iff`: requirements stand in the order of their texts.
* `MethodPolicy.build_eq_ok_iff`: the policy of a list of declarations.
* `MethodPolicy.build_perm`: parameters may be declared in any order.
* `Registry.build_eq_ok_iff`: the registry of a list of methods.
-/

namespace AccessGuard

/-! ## The requirements of a list -/

namespace Requirement

variable {expected : Option String} {texts later : List String} {rs : List Requirement}

/-- **One requirement for each text**, in the order of the texts. -/
theorem compileAll_eq_ok_iff :
    compileAll expected texts = .ok rs ↔
      List.Forall₂ (fun text r => compile text expected = .ok r) texts rs := by
  induction texts generalizing rs with
  | nil => cases rs <;> simp [compileAll]
  | cons text texts ih =>
    rw [compileAll]
    cases ht : compile text expected with
    | error e => cases rs <;> simp [bind, Except.bind, ht]
    | ok r =>
      cases hts : compileAll expected texts with
      | error e => cases rs <;> simp [bind, Except.bind, ← ih, ht, hts]
      | ok us => cases rs <;> simp [bind, Except.bind, pure, Except.pure, ← ih, ht, hts]

theorem compileAll_append_eq_ok_iff :
    compileAll expected (texts ++ later) = .ok rs ↔
      ∃ us vs, compileAll expected texts = .ok us ∧ compileAll expected later = .ok vs ∧
        us ++ vs = rs := by
  simp only [compileAll_eq_ok_iff]
  induction texts generalizing rs with
  | nil => simp
  | cons text texts ih =>
    simp only [List.cons_append, List.forall₂_cons_left_iff, ih]
    constructor
    · rintro ⟨r, -, hr, ⟨us, vs, hus, hvs, rfl⟩, rfl⟩
      exact ⟨r :: us, vs, ⟨r, us, hr, hus, rfl⟩, hvs, rfl⟩
    · rintro ⟨-, vs, ⟨r, us, hr, hus, rfl⟩, hvs, rfl⟩
      exact ⟨r, us ++ vs, hr, ⟨us, vs, hus, hvs, rfl⟩, rfl⟩

/-- Each requirement is compiled from its own permission and binds the name that is expected. -/
theorem compiled_of_compileAll (h : compileAll expected texts = .ok rs) {r : Requirement}
    (hr : r ∈ rs) :
    Selector.compile r.permission = .ok r.selector ∧
      ∀ name ∈ expected, r.selector.binding = name := by
  -- the requirement stands at the place of the text that it was compiled from
  obtain ⟨text, ht⟩ : ∃ text, compile text expected = .ok r := by
    induction compileAll_eq_ok_iff.1 h with
    | nil => cases hr
    | @cons text u texts us hu hus ih =>
      rcases List.mem_cons.1 hr with rfl | hr
      · exact ⟨text, hu⟩
      · exact ih (compileAll_eq_ok_iff.2 hus) hr
  obtain ⟨-, hexpected, hselector⟩ := compile_eq_ok.1 ht
  refine ⟨hselector, ?_⟩
  intro name hname
  rw [(Selector.compile_eq_ok.1 hselector).1]
  exact hexpected name hname

end Requirement

/-! ## Declarations -/

/-- One call that adds to the policy of a method. -/
inductive Declaration where
  | parameter (index : Nat) (name : String) (texts : List String)
  | returns (texts : List String)
deriving DecidableEq

namespace Declaration

/-- The position that is declared, with the name and the texts for it. -/
def parameter? : Declaration → Option (Nat × String × List String)
  | parameter index name texts => some (index, name, texts)
  | returns _ => none

/-- What is declared on the result. -/
def resultTexts : Declaration → List String
  | parameter .. => []
  | returns texts => texts

end Declaration

/-- All declarations of parameters, in their order. -/
def parametersOf (ds : List Declaration) : List (Nat × String × List String) :=
  ds.filterMap Declaration.parameter?

/-- All that is declared on the result, one declaration after the other. -/
def resultTextsOf (ds : List Declaration) : List String := ds.flatMap Declaration.resultTexts

theorem parametersOf_append (ds es : List Declaration) :
    parametersOf (ds ++ es) = parametersOf ds ++ parametersOf es := List.filterMap_append

theorem resultTextsOf_append (ds es : List Declaration) :
    resultTextsOf (ds ++ es) = resultTextsOf ds ++ resultTextsOf es := List.flatMap_append

namespace MethodPolicy

variable {p q : MethodPolicy} {index : Nat} {name : String} {texts : List String}
  {ds es : List Declaration} {e : RegistryError}

/-- What a declaration makes of a policy. -/
def declare (p : MethodPolicy) : Declaration → Except RegistryError MethodPolicy
  | .parameter index name texts => p.parameter index name texts
  | .returns texts => p.withReturns texts

/-- The policy of declarations that are made in turn, or the error of the first that fails. -/
def build (ds : List Declaration) : Except RegistryError MethodPolicy := ds.foldlM declare .empty

/-- What a name and texts declare on the parameter at a position. -/
def readParameter (index : Nat) (m : String × List String) :
    Except MalformedPermission ParameterPolicy :=
  (Requirement.compileAll (some m.1) m.2).map (ParameterPolicy.mk index m.1)

theorem readParameter_eq_ok_iff {x : ParameterPolicy} :
    readParameter index (name, texts) = .ok x ↔ x.index = index ∧ x.name = name ∧
      Requirement.compileAll (some name) texts = .ok x.requirements := by
  obtain ⟨index', name', requirements⟩ := x
  unfold readParameter
  cases Requirement.compileAll (some name) texts <;> simp [Except.map, eq_comm]

theorem parameter_eq_ok_iff :
    p.parameter index name texts = .ok q ↔
      p.parameters.contains index = false ∧ ∃ x, readParameter index (name, texts) = .ok x ∧
        q.parameters = p.parameters.insert index x ∧ q.returns = p.returns := by
  unfold parameter readParameter
  cases Requirement.compileAll (some name) texts with
  | error m => simp [Except.map]
  | ok rs =>
    cases p.parameters.contains index <;> simp [Except.map, MethodPolicy.ext_iff, eq_comm]

/-- **A malformed requirement is reported before a position that is taken.** -/
theorem parameter_eq_error_iff :
    p.parameter index name texts = .error e ↔
      (∃ m, readParameter index (name, texts) = .error m ∧ .malformed m = e) ∨
      (∃ x, readParameter index (name, texts) = .ok x) ∧ p.parameters.contains index = true ∧
        .duplicateParameter index = e := by
  unfold parameter readParameter
  cases Requirement.compileAll (some name) texts with
  | error m => simp [Except.map]
  | ok rs => cases p.parameters.contains index <;> simp [Except.map]

theorem withReturns_eq_ok_iff :
    p.withReturns texts = .ok q ↔
      ∃ rs, Requirement.compileAll none texts = .ok rs ∧
        q = { p with returns := p.returns ++ rs } := by
  unfold withReturns
  cases Requirement.compileAll none texts <;> simp [eq_comm]

theorem withReturns_eq_error_iff :
    p.withReturns texts = .error e ↔
      ∃ m, Requirement.compileAll none texts = .error m ∧ .malformed m = e := by
  unfold withReturns
  cases Requirement.compileAll none texts <;> simp

/-- **What a policy says that was made by declarations**: the parameters as they were declared,
and the requirements on the result, one declaration after the other. -/
structure MadeBy (ds : List Declaration) (p : MethodPolicy) : Prop where
  parameters : p.parameters.Collects readParameter (parametersOf ds)
  returns : Requirement.compileAll none (resultTextsOf ds) = .ok p.returns

/-- The declarations determine the policy. -/
theorem MadeBy.unique (hp : p.MadeBy ds) (hq : q.MadeBy ds) : p = q := by
  have hparameters : p.parameters = q.parameters := hp.parameters.unique hq.parameters
  have hreturns : p.returns = q.returns := Except.ok.inj (hp.returns.symm.trans hq.returns)
  exact MethodPolicy.ext hparameters hreturns

theorem madeBy_empty : empty.MadeBy [] := ⟨.nil, rfl⟩

/-- A parameter more takes a position of its own. -/
theorem MadeBy.parameter_iff (h : p.MadeBy ds) :
    p.parameter index name texts = .ok q ↔ q.MadeBy (ds ++ [.parameter index name texts]) := by
  have hparameters : parametersOf (ds ++ [.parameter index name texts]) =
      parametersOf ds ++ [(index, name, texts)] := parametersOf_append ds _
  have hresult : resultTextsOf (ds ++ [.parameter index name texts]) = resultTextsOf ds := by
    rw [resultTextsOf_append]
    exact List.append_nil _
  rw [parameter_eq_ok_iff]
  constructor
  · rintro ⟨hfree, x, hx, hinsert, hreturns⟩
    refine ⟨?_, ?_⟩
    · rw [hparameters]
      exact h.parameters.concat_iff.2 ⟨hfree, x, hx, hinsert⟩
    · rw [hresult, hreturns]
      exact h.returns
  · rintro ⟨hcollects, hreturns⟩
    rw [hparameters] at hcollects
    rw [hresult, h.returns] at hreturns
    obtain ⟨hfree, x, hx, hinsert⟩ := h.parameters.concat_iff.1 hcollects
    exact ⟨hfree, x, hx, hinsert, (Except.ok.inj hreturns).symm⟩

/-- Declarations on the result are added to those before. -/
theorem MadeBy.withReturns_iff (h : p.MadeBy ds) :
    p.withReturns texts = .ok q ↔ q.MadeBy (ds ++ [.returns texts]) := by
  have hparameters : parametersOf (ds ++ [.returns texts]) = parametersOf ds := by
    rw [parametersOf_append]
    exact List.append_nil _
  have hresult : resultTextsOf (ds ++ [.returns texts]) = resultTextsOf ds ++ texts := by
    rw [resultTextsOf_append]
    exact congrArg _ (List.append_nil texts)
  rw [withReturns_eq_ok_iff]
  constructor
  · rintro ⟨rs, hrs, rfl⟩
    refine ⟨hparameters ▸ h.parameters, ?_⟩
    rw [hresult]
    exact Requirement.compileAll_append_eq_ok_iff.2 ⟨_, rs, h.returns, hrs, rfl⟩
  · rintro ⟨hcollects, hreturns⟩
    rw [hparameters] at hcollects
    rw [hresult, Requirement.compileAll_append_eq_ok_iff] at hreturns
    obtain ⟨us, rs, hus, hrs, heq⟩ := hreturns
    cases h.returns.symm.trans hus
    exact ⟨rs, hrs, MethodPolicy.ext (hcollects.unique h.parameters) heq.symm⟩

/-- **What one declaration more makes of a policy.** -/
theorem MadeBy.declare_iff (h : p.MadeBy ds) (d : Declaration) :
    p.declare d = .ok q ↔ q.MadeBy (ds ++ [d]) := by
  cases d with
  | parameter index name texts => exact h.parameter_iff
  | returns texts => exact h.withReturns_iff

/-- What makes a policy makes one without its last declaration. -/
theorem MadeBy.front {d : Declaration} (h : q.MadeBy (ds ++ [d])) : ∃ p, MadeBy ds p := by
  have hparameters := h.parameters
  have hreturns := h.returns
  rw [parametersOf_append] at hparameters
  rw [resultTextsOf_append, Requirement.compileAll_append_eq_ok_iff] at hreturns
  obtain ⟨parameters, hfront⟩ := hparameters.front
  obtain ⟨us, -, hus, -⟩ := hreturns
  -- what was read for a position has this position
  have hindex : ∀ entry ∈ parameters.entries, entry.2.index = entry.1 := by
    rintro ⟨i, x⟩ hentry
    obtain ⟨m, -, hm⟩ := (hfront.get?_iff i x).1 (Table.get?_eq_some_iff.2 hentry)
    exact (readParameter_eq_ok_iff.1 hm).1
  exact ⟨⟨parameters, us, hindex⟩, hfront, hus⟩

/-- **The policy of a list of declarations** is the one that says what was declared. -/
theorem build_eq_ok_iff : build ds = .ok p ↔ p.MadeBy ds := by
  refine foldlM_eq_ok_iff MadeBy ?_ ?_ ?_ ds p
  · intro q
    constructor
    · intro hq
      exact hq.unique madeBy_empty
    · rintro rfl
      exact madeBy_empty
  · intro ds q hq d r
    exact hq.declare_iff d
  · intro ds d q hq
    exact hq.front

/-- **Parameters may be declared in any order**, and anywhere between the declarations on the
result. -/
theorem build_perm (h : build ds = .ok p) (hp : (parametersOf ds).Perm (parametersOf es))
    (hr : resultTextsOf ds = resultTextsOf es) : build es = .ok p := by
  rw [build_eq_ok_iff] at h ⊢
  exact ⟨h.parameters.perm hp, hr ▸ h.returns⟩

/-- The first declaration that fails, after declarations that are made, fails with this error. -/
def FailsWith (ds : List Declaration) (e : RegistryError) : Prop :=
  ∃ before d after p, ds = before ++ d :: after ∧ build before = .ok p ∧ p.declare d = .error e

theorem build_eq_error_iff : build ds = .error e ↔ FailsWith ds e := foldlM_eq_error_iff

/-- No declaration is refused for the name of a method. -/
theorem declare_ne_duplicateMethod (p : MethodPolicy) (d : Declaration) (method : String) :
    p.declare d ≠ .error (.duplicateMethod method) := by
  intro h
  cases d with
  | parameter index name texts =>
    rcases parameter_eq_error_iff.1 h with ⟨m, -, he⟩ | ⟨-, -, he⟩ <;> cases he
  | returns texts =>
    obtain ⟨m, -, he⟩ := withReturns_eq_error_iff.1 h
    cases he

theorem build_ne_duplicateMethod (ds : List Declaration) (method : String) :
    build ds ≠ .error (.duplicateMethod method) := by
  intro h
  obtain ⟨before, d, after, p, -, -, hd⟩ := build_eq_error_iff.1 h
  exact declare_ne_duplicateMethod p d method hd

end MethodPolicy

/-! ## Registrations -/

namespace Registry

variable {r s : Registry} {name : String} {p : MethodPolicy} {e : RegistryError}
  {m : String × List Declaration} {methods : List (String × List Declaration)}

/-- Builds the policy of a method and registers it. -/
def registerBuilt (r : Registry) (m : String × List Declaration) :
    Except RegistryError Registry := do
  r.register m.1 (← MethodPolicy.build m.2)

/-- The registry of methods that are built and registered in turn, or the first error. -/
def build (methods : List (String × List Declaration)) : Except RegistryError Registry :=
  methods.foldlM registerBuilt .empty

theorem register_eq_ok_iff :
    r.register name p = .ok s ↔
      r.methods.contains name = false ∧ s = ⟨r.methods.insert name p⟩ := by
  unfold register
  cases r.methods.contains name <;> simp [eq_comm]

theorem register_eq_error_iff :
    r.register name p = .error e ↔ r.methods.contains name = true ∧ e = .duplicateMethod name := by
  unfold register
  cases r.methods.contains name <;> simp [eq_comm]

theorem registerBuilt_eq_ok_iff :
    r.registerBuilt m = .ok s ↔ r.methods.contains m.1 = false ∧
      ∃ p, MethodPolicy.build m.2 = .ok p ∧ s = ⟨r.methods.insert m.1 p⟩ := by
  unfold registerBuilt
  cases MethodPolicy.build m.2 with
  | error e => simp [bind, Except.bind]
  | ok p =>
    refine register_eq_ok_iff.trans (and_congr_right fun _ => ?_)
    simp

/-- A policy that cannot be built is reported before a name that is taken. -/
theorem registerBuilt_eq_error_iff :
    r.registerBuilt m = .error e ↔ MethodPolicy.build m.2 = .error e ∨
      (∃ p, MethodPolicy.build m.2 = .ok p) ∧ r.methods.contains m.1 = true ∧
        e = .duplicateMethod m.1 := by
  unfold registerBuilt
  cases MethodPolicy.build m.2 with
  | error e' => simp [bind, Except.bind]
  | ok p =>
    refine register_eq_error_iff.trans ?_
    simp

/-- **The registry of a list of methods** holds the policy of each under its name. -/
theorem build_eq_ok_iff :
    build methods = .ok r ↔ r.methods.Collects (fun _ => MethodPolicy.build) methods := by
  refine foldlM_eq_ok_iff
    (fun methods r => r.methods.Collects (fun _ => MethodPolicy.build) methods) ?_ ?_ ?_ methods r
  · intro s
    constructor
    · intro hs
      cases s
      exact congrArg Registry.mk (hs.unique .nil)
    · rintro rfl
      exact .nil
  · intro methods s hs m t
    rw [registerBuilt_eq_ok_iff, hs.concat_iff]
    cases t
    simp
  · intro methods m s hs
    obtain ⟨front, hfront⟩ := hs.front
    exact ⟨⟨front⟩, hfront⟩

/-- **Methods can be registered** if they have names of their own and their policies can be
built. -/
theorem build_isOk_iff :
    (∃ r, build methods = .ok r) ↔
      (methods.map (·.1)).Nodup ∧ ∀ m ∈ methods, ∃ p, MethodPolicy.build m.2 = .ok p := by
  simp only [build_eq_ok_iff]
  constructor
  · rintro ⟨r, hr⟩
    exact ⟨hr.distinct, hr.readable⟩
  · rintro ⟨distinct, readable⟩
    have hcollects : ∃ t, Table.Collects (fun _ => MethodPolicy.build) methods t :=
      Table.exists_collects distinct readable
    obtain ⟨t, ht⟩ := hcollects
    exact ⟨⟨t⟩, ht⟩

/-- Where methods have names of their own, the error is that of the first policy that cannot be
built. -/
theorem build_eq_error_iff (distinct : (methods.map (·.1)).Nodup) :
    build methods = .error e ↔ ∃ before m after, methods = before ++ m :: after ∧
      (∀ n ∈ before, ∃ p, MethodPolicy.build n.2 = .ok p) ∧ MethodPolicy.build m.2 = .error e := by
  unfold build
  rw [foldlM_eq_error_iff]
  constructor
  · rintro ⟨before, m, after, s, rfl, hs, hm⟩
    have hbefore := build_eq_ok_iff.1 hs
    refine ⟨before, m, after, rfl, hbefore.readable, ?_⟩
    rcases registerBuilt_eq_error_iff.1 hm with he | ⟨-, htaken, -⟩
    · exact he
    · rw [List.map_append, List.nodup_append] at distinct
      exact absurd rfl (distinct.2.2 m.1 (hbefore.contains_iff.1 htaken) m.1 List.mem_cons_self)
  · rintro ⟨before, m, after, rfl, readable, hm⟩
    rw [List.map_append, List.nodup_append] at distinct
    obtain ⟨s, hs⟩ := build_isOk_iff.2 ⟨distinct.1, readable⟩
    exact ⟨before, m, after, s, rfl, hs, registerBuilt_eq_error_iff.2 (.inl hm)⟩

/-- **Methods may be registered in any order.** -/
theorem build_perm {others : List (String × List Declaration)} (h : build methods = .ok r)
    (hp : methods.Perm others) : build others = .ok r :=
  build_eq_ok_iff.2 ((build_eq_ok_iff.1 h).perm hp)

end Registry

end AccessGuard
