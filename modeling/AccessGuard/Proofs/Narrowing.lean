import AccessGuard.Proofs.Stages
import AccessGuard.Subject.Fixed

/-!
# Narrowing is the only change

Nothing is assumed about the subject: it may leave any set behind, also one with new members or
one that it emptied before a refusal. Whatever it does, a value that was checked is the value it
was before, or a list of some of its elements in their order.

* `check_narrows`: any number of requirements, met or not.
* `checkArguments_narrowed`: the arguments of a call, slot by slot.
* `invoke_narrows`: a whole call, whether it fails before the operation, in it or after it.
-/

namespace AccessGuard

variable {τ ε : Type} {subject : Subject τ} {method : String} {state : τ}

/-! ## One value -/

/-- What may become of a value: it stays as it is, or a list loses elements. -/
inductive NarrowsTo : Value → Value → Prop where
  | same (v : Value) : NarrowsTo v v
  | fewer {items rest : List Value} : rest.Sublist items → NarrowsTo (.list items) (.list rest)

namespace NarrowsTo

variable {u v w : Value}

theorem trans (h₁ : NarrowsTo u v) (h₂ : NarrowsTo v w) : NarrowsTo u w := by
  cases h₁ with
  | same => exact h₂
  | fewer h =>
    cases h₂ with
    | same => exact .fewer h
    | fewer h' => exact .fewer (h'.trans h)

end NarrowsTo

theorem checkCollection_sublist (r : Requirement) (items : List Value) :
    (checkCollection subject r items state).result.value.Sublist items := by
  rcases checkCollection_cases subject r state items with
    ⟨e, -, he⟩ | ⟨candidates, -, ⟨d, -, he⟩ | ⟨-, events, he⟩⟩
  · simp only [he, List.Sublist.refl]
  · simp only [he, List.Sublist.refl]
  · rw [he]; exact List.filter_sublist

theorem checkOne_narrows (r : Requirement) (v : Value) :
    NarrowsTo v (checkOne subject r v state).result.value := by
  rcases v.list_cases with ⟨items, rfl⟩ | hv
  · exact .fewer (checkCollection_sublist r items)
  · rw [checkOne_of_not_list hv]
    exact .same v

/-- **Checking only narrows**, up to and with the requirement that fails. -/
theorem check_narrows (subject : Subject τ) (method : String) (rs : List Requirement) (v : Value)
    (state : τ) :
    NarrowsTo v (check subject method rs v state).result.value := by
  induction rs generalizing v state with
  | nil => exact .same v
  | cons r rs ih =>
    have hfirst : NarrowsTo v (checkOne subject r v state).result.value := checkOne_narrows r v
    cases h : (checkOne subject r v state).result.verdict with
    | error e => rw [check_cons_of_error h]; exact hfirst
    | ok _ => rw [check_cons_of_ok h]; exact hfirst.trans (ih _ _)

/-! ## The arguments of a call -/

/-- Arguments before and after: each slot holds what it held, or is declared and held a list of
which it holds some elements. -/
structure ArgumentsNarrowed (declared : List Nat) (before after : Arguments) : Prop where
  length_eq : after.length = before.length
  slot : ∀ i : Nat, after[i]? = before[i]? ∨
    i ∈ declared ∧ ∃ items rest, before[i]? = some (some (.list items)) ∧
      after[i]? = some (some (.list rest)) ∧ rest.Sublist items

namespace ArgumentsNarrowed

variable {a b c : Arguments} {is js : List Nat}

theorem refl (is : List Nat) (a : Arguments) : ArgumentsNarrowed is a a :=
  ⟨rfl, fun _ => .inl rfl⟩

theorem trans (h₁ : ArgumentsNarrowed is a b) (h₂ : ArgumentsNarrowed js b c) :
    ArgumentsNarrowed (is ++ js) a c := by
  refine ⟨h₂.length_eq.trans h₁.length_eq, ?_⟩
  intro i
  rcases h₁.slot i with hab | ⟨hi, items, rest, ha, hb, hs⟩
  · rcases h₂.slot i with hbc | ⟨hj, items, rest, hb, hc, hs⟩
    · left; rw [hbc, hab]
    · right
      exact ⟨List.mem_append_right _ hj, items, rest, hab ▸ hb, hc, hs⟩
  · right
    -- what was a list before the second change is one after it
    refine ⟨List.mem_append_left _ hi, items, ?_⟩
    rcases h₂.slot i with hbc | ⟨-, items', rest', hb', hc, hs'⟩
    · exact ⟨rest, ha, hbc.trans hb, hs⟩
    · cases hb.symm.trans hb'
      exact ⟨rest', ha, hc, hs'.trans hs⟩

theorem mono (h : ArgumentsNarrowed is a b) (hsub : ∀ i ∈ is, i ∈ js) :
    ArgumentsNarrowed js a b := by
  refine ⟨h.length_eq, fun i => ?_⟩
  rcases h.slot i with he | ⟨hi, hlist⟩
  · exact .inl he
  · exact .inr ⟨hsub i hi, hlist⟩

/-- A slot that is not declared is left alone. -/
theorem eq_of_not_mem (h : ArgumentsNarrowed is a b) {i : Nat} (hi : i ∉ is) : b[i]? = a[i]? := by
  rcases h.slot i with he | ⟨hm, -⟩
  · exact he
  · exact absurd hm hi

theorem set {i : Nat} {v w : Value} (hv : a[i]? = some (some v)) (h : NarrowsTo v w) :
    ArgumentsNarrowed [i] a (a.set i (some w)) := by
  refine ⟨List.length_set, fun j => ?_⟩
  obtain ⟨hi, -⟩ := List.getElem?_eq_some_iff.1 hv
  by_cases hij : i = j
  · subst hij
    rw [List.getElem?_set_self hi]
    cases h with
    | same => left; exact hv.symm
    | fewer hs => right; exact ⟨List.mem_singleton_self i, _, _, hv, rfl, hs⟩
  · left
    exact List.getElem?_set_ne hij

end ArgumentsNarrowed

/-- **The first stage only narrows declared arguments**, whether it passes or fails. -/
theorem checkArguments_narrowed (ps : List ParameterPolicy) (arguments : Arguments) :
    ArgumentsNarrowed (ps.map (·.index)) arguments
      (checkArguments subject method ps arguments state).result.2 := by
  induction ps generalizing arguments state with
  | nil => exact .refl [] arguments
  | cons p ps ih =>
    rcases argument_cases arguments p.index with hi | ⟨hi, hn⟩ | ⟨v, hv, hn⟩
    · rw [checkArguments_missing hi]; exact .refl _ arguments
    · rw [checkArguments_null hi hn]
      exact (ih arguments).mono fun j hj => List.mem_cons_of_mem p.index hj
    · have hset := ArgumentsNarrowed.set hv
        (check_narrows subject method p.requirements v state)
      cases hc : (check subject method p.requirements v state).result.verdict with
      | error _ =>
        rw [checkArguments_of_error hv hn hc]
        exact hset.mono fun j hj => by rw [List.mem_singleton.1 hj]; exact List.mem_cons_self
      | ok _ =>
        rw [checkArguments_of_ok hv hn hc]
        exact hset.trans (ih _)

/-- The first stage fails at a position: the parameters before it pass, and with it they do
not. -/
def FailsAt (subject : Subject τ) (method : String) (policy : MethodPolicy)
    (arguments : Arguments) (state : τ) (i : Nat) (e : GuardError) : Prop :=
  ∃ before p after, policy.parameters.values = before ++ p :: after ∧ p.index = i ∧
    (checkArguments subject method before arguments state).result.1 = .ok () ∧
    (checkArguments subject method (before ++ [p]) arguments state).result.1 = .error e

/-- A stage that fails has a first parameter that fails. -/
theorem exists_split_of_error {ps : List ParameterPolicy} {arguments : Arguments}
    {e : GuardError}
    (h : (checkArguments subject method ps arguments state).result.1 = .error e) :
    ∃ before p after, ps = before ++ p :: after ∧
      (checkArguments subject method before arguments state).result.1 = .ok () ∧
      (checkArguments subject method (before ++ [p]) arguments state).result.1 = .error e := by
  induction ps generalizing arguments state with
  | nil => cases h
  | cons p ps ih =>
    rcases argument_cases arguments p.index with hi | ⟨hi, hn⟩ | ⟨v, hv, hn⟩
    · refine ⟨[], p, ps, rfl, rfl, ?_⟩
      rw [checkArguments_missing hi] at h
      rw [List.nil_append, checkArguments_missing hi]
      exact h
    · rw [checkArguments_null hi hn] at h
      obtain ⟨before, q, after, hps, hok, herr⟩ := ih h
      refine ⟨p :: before, q, after, by rw [hps]; rfl, ?_, ?_⟩
      · rw [checkArguments_null hi hn]; exact hok
      · rw [List.cons_append, checkArguments_null hi hn]; exact herr
    · cases hc : (check subject method p.requirements v state).result.verdict with
      | error _ =>
        refine ⟨[], p, ps, rfl, rfl, ?_⟩
        rw [checkArguments_of_error hv hn hc] at h
        rw [List.nil_append, checkArguments_of_error hv hn hc]
        exact h
      | ok _ =>
        rw [checkArguments_of_ok hv hn hc] at h
        obtain ⟨before, q, after, hps, hok, herr⟩ := ih h
        refine ⟨p :: before, q, after, by rw [hps]; rfl, ?_, ?_⟩
        · rw [checkArguments_of_ok hv hn hc]; exact hok
        · rw [List.cons_append, checkArguments_of_ok hv hn hc]; exact herr

/-- Before a position stand smaller positions. -/
theorem index_lt_of_split {policy : MethodPolicy} {before after : List ParameterPolicy}
    {p : ParameterPolicy} (h : policy.parameters.values = before ++ p :: after) :
    ∀ q ∈ before, q.index < p.index := by
  have hposition : ByPosition (before ++ p :: after) := h ▸ policy.byPosition_values
  intro q hq
  exact (List.pairwise_append.1 hposition).2.2 q hq p List.mem_cons_self

/-- **A failure at a position leaves all later slots alone.** -/
theorem FailsAt.later_unchanged {policy : MethodPolicy} {arguments : Arguments} {i : Nat}
    {e : GuardError} (h : FailsAt subject method policy arguments state i e) {j : Nat}
    (hj : i < j) :
    (checkArguments subject method policy.parameters.values arguments state).result.2[j]? =
      arguments[j]? := by
  obtain ⟨before, p, after, hps, rfl, -, herr⟩ := h
  have hlt := index_lt_of_split hps
  have hsplit : policy.parameters.values = (before ++ [p]) ++ after := by
    rw [hps, List.append_assoc]; rfl
  -- the parameters after the position are never looked at, those up to it are not greater
  rw [hsplit, checkArguments_append_of_error herr]
  apply (checkArguments_narrowed _ arguments).eq_of_not_mem
  intro hm
  obtain ⟨q, hq, rfl⟩ := List.mem_map.1 hm
  rcases List.mem_append.1 hq with hb | hb
  · have := hlt q hb; omega
  · rw [List.mem_singleton.1 hb] at hj; omega

/-! ## Whole calls -/

/-- What a call makes of the result of its operation: the failure of the operation, the result
as it is, some elements of a list if there are requirements on it, or a refusal. -/
inductive Delivers (rs : List Requirement) :
    Except ε (Option Value) → Except (InvocationError ε) (Option Value) → Prop where
  | failed (e : ε) : Delivers rs (.error e) (.error (.operation e))
  | same (v : Option Value) : Delivers rs (.ok v) (.ok v)
  | fewer {items rest : List Value} : rs ≠ [] → rest.Sublist items →
      Delivers rs (.ok (some (.list items))) (.ok (some (.list rest)))
  | refused (v : Value) (e : GuardError) : rs ≠ [] →
      Delivers rs (.ok (some v)) (.error (.guard e))

theorem closing_delivers (rs : List Requirement) (operation : GuardedOperation τ ε)
    (arguments : Arguments) :
    Delivers rs (operation arguments state).result
      (closing subject method rs operation arguments state).result.result := by
  rcases closing_cases subject method rs operation arguments state with
    ⟨e, hr, he⟩ | ⟨value, hr, -, he⟩ | ⟨v, hr, -, he⟩ <;> rw [he, hr] <;> dsimp only
  · exact .failed e
  · exact .same value
  · cases rs with
    | nil => exact .same (some v)
    | cons r rs =>
      generalize hlast : check subject method (r :: rs) v (operation arguments state).state = last
      have hnar : NarrowsTo v last.result.value := by rw [← hlast]; exact check_narrows ..
      obtain ⟨⟨verdict, w⟩, effects, state'⟩ := last
      cases verdict with
      | error e => exact .refused v e (List.cons_ne_nil r rs)
      | ok _ =>
        cases hnar with
        | same => exact .same _
        | fewer hs => exact .fewer (List.cons_ne_nil r rs) hs

/-- Without requirements a result is passed on as it is, which any requirements allow. -/
theorem Delivers.of_nil {rs : List Requirement} {result : Except ε (Option Value)}
    {delivered : Except (InvocationError ε) (Option Value)} (h : Delivers [] result delivered) :
    Delivers rs result delivered := by
  cases h with
  | failed e => exact .failed e
  | same v => exact .same v
  | fewer hne => exact absurd rfl hne
  | refused _ _ hne => exact absurd rfl hne

section Calls

variable {σ : Type} {g : Guard} {policy : MethodPolicy} {world : World σ}

theorem opening_narrowed (subject : Subject (World σ)) (arguments : Arguments) (world : World σ)
    (hm : g.registry.get? method = some policy) :
    ArgumentsNarrowed policy.parameters.keys arguments
      (g.opening subject method arguments world).result.2 := by
  by_cases on : g.isEnabled world.switches = true
  · rw [Guard.opening_registered on hm, ← policy.map_index_values]
    exact checkArguments_narrowed policy.parameters.values arguments
  · unfold Guard.opening
    rw [if_neg on]
    exact .refl _ arguments

theorem delivers_of_registered (hm : g.registry.get? method = some policy)
    {result : Except ε (Option Value)}
    {delivered : Except (InvocationError ε) (Option Value)}
    (h : Delivers (g.resultRequirements method world) result delivered) :
    Delivers policy.returns result delivered := by
  by_cases on : g.isEnabled world.switches = true
  · rw [Guard.resultRequirements_registered on hm] at h; exact h
  · unfold Guard.resultRequirements at h
    rw [if_neg on] at h
    exact h.of_nil

end Calls

/-- **Narrowing is the only change.** The operation sees the arguments narrowed in declared
slots. A call that fails before it leaves them so, with all slots after the position of the
failure as they were; there is such a position. After the operation the arguments stay as it
left them, and its result is passed on, narrowed at most, or refused. -/
theorem invoke_narrows {σ : Type} (g : Guard) (subject : Subject (World σ)) (method : String)
    (policy : MethodPolicy) (arguments : Arguments) (operation : GuardedOperation (World σ) ε)
    (world : World σ) (hm : g.registry.get? method = some policy) :
    let run := g.invoke subject method arguments operation world
    let opening := g.opening subject method arguments world
    (∀ seen, .started seen ∈ run.effects →
      ArgumentsNarrowed policy.parameters.keys arguments seen ∧
      run.result.arguments = (operation seen opening.state).arguments ∧
      Delivers policy.returns (operation seen opening.state).result run.result.result) ∧
    ((∀ seen, .started seen ∉ run.effects) →
      ArgumentsNarrowed policy.parameters.keys arguments run.result.arguments ∧
      (∃ i e, FailsAt subject method policy arguments world i e ∧
        run.result.result = .error (.guard e)) ∧
      ∀ i e, FailsAt subject method policy arguments world i e →
        ∀ j, i < j → run.result.arguments[j]? = arguments[j]?) := by
  dsimp only
  refine ⟨?_, ?_⟩
  · intro seen hseen
    obtain ⟨hok, rfl⟩ := Guard.started_iff.1 hseen
    refine ⟨opening_narrowed _ _ _ hm, ?_, ?_⟩
    · rw [Guard.invoke_of_ok hok]
      dsimp only
      rw [closing_arguments]
    · rw [Guard.invoke_of_ok hok]
      exact delivers_of_registered hm (closing_delivers _ operation _)
  · intro hno
    cases hopen : (g.opening subject method arguments world).result.1 with
    | ok _ => exact absurd (Guard.started_iff.2 ⟨hopen, rfl⟩) (hno _)
    | error e =>
      obtain ⟨on, -⟩ := Guard.registered_of_error hopen
      rw [Guard.invoke_of_error hopen]
      refine ⟨opening_narrowed _ _ _ hm, ?_, ?_⟩
      · rw [Guard.opening_registered on hm] at hopen
        obtain ⟨before, p, after, hps, hok, herr⟩ := exists_split_of_error hopen
        exact ⟨p.index, e, ⟨before, p, after, hps, rfl, hok, herr⟩, rfl⟩
      · intro i e' hfail j hj
        dsimp only
        rw [Guard.opening_registered on hm]
        exact hfail.later_unchanged hj

/-- A subject that puts a county into the set which no case has, and one that refuses. -/
theorem invoke_narrows_sample :
    let replaced := Sample.guard.invoke (.replaceWith (.ofList [.str "south", .str "west"]))
      "cases.list" Sample.arguments Sample.first Sample.world
    let refused := Sample.guard.invoke (.deny "no") "cases.list" Sample.arguments Sample.first
      Sample.world
    let seen := [some (.list [Sample.case "south"]), none]
    Sample.guard.registry.get? "cases.list" = some Sample.policy ∧
    .started seen ∈ replaced.effects ∧ ArgumentsNarrowed [0] Sample.arguments seen ∧
    starts refused.effects = [] ∧
    ArgumentsNarrowed [0] Sample.arguments refused.result.arguments := by
  intro replaced refused seen
  have hm : Sample.guard.registry.get? "cases.list" = some Sample.policy := by decide
  have hstarted : .started seen ∈ replaced.effects := by decide
  have hnever : starts refused.effects = [] := by decide
  have hnarrows := fun subject => invoke_narrows Sample.guard subject "cases.list" Sample.policy
    Sample.arguments Sample.first Sample.world hm
  refine ⟨hm, hstarted, ((hnarrows _).1 seen hstarted).1, hnever, ((hnarrows _).2 ?_).1⟩
  intro seen hseen
  rw [← mem_starts, hnever] at hseen
  cases hseen

end AccessGuard
