import AccessGuard.Proofs.Visits
import AccessGuard.Subject.Fixed

/-!
# The order of calls

What the first stage is to check is fixed when it begins, since narrowing neither adds an
argument nor makes one null: the requirements on the arguments that are there, by ascending
position and as they were declared. The stage visits this plan up to the first requirement that
is not met. The operation starts after all of them, and the requirements on its result are
visited after it.

* `checkArguments_opens`: the first stage visits the plan of the arguments.
* `closing_finishes`: the visits to the result.
* `invoke_calls`: the questions and the start of the operation in a whole call.
-/

namespace AccessGuard

variable {τ ε : Type} {subject : Subject τ} {state : τ}

/-! ## The first stage -/

section Arguments

variable {method : String} {ps : List ParameterPolicy} {arguments : Arguments} {i : Nat}
  {p : ParameterPolicy}

/-- What is to be checked of arguments that are there, by position. Of an argument that is
absent, null or not there at all nothing is. -/
def argumentPlan (ps : List ParameterPolicy) (arguments : Arguments) : List (Nat × Requirement) :=
  ps.flatMap fun p =>
    if (argumentAt arguments p.index).isNull then [] else p.requirements.map (p.index, ·)

theorem argumentAt_set {v : Value} (hi : i < arguments.length) :
    argumentAt (arguments.set i (some v)) = Function.update (argumentAt arguments) i v := by
  funext j
  unfold argumentAt
  by_cases hij : j = i
  · subst hij
    rw [List.getElem?_set_self hi, Function.update_self]; rfl
  · rw [List.getElem?_set_ne (Ne.symm hij), Function.update_of_ne hij]

theorem argumentAt_of_length_le (h : arguments.length ≤ i) : argumentAt arguments i = .null := by
  unfold argumentAt; rw [List.getElem?_eq_none h]; rfl

/-- The plan depends only on which arguments are null. -/
theorem argumentPlan_congr {arguments' : Arguments}
    (h : ∀ p ∈ ps, argumentAt arguments' p.index = argumentAt arguments p.index) :
    argumentPlan ps arguments' = argumentPlan ps arguments := by
  unfold argumentPlan
  rw [List.flatMap_def, List.flatMap_def]
  congr 1
  apply List.map_congr_left
  intro p hp
  rw [h p hp]

theorem argumentPlan_eq_nil (h : ∀ p ∈ ps, (argumentAt arguments p.index).isNull = true) :
    argumentPlan ps arguments = [] := by
  unfold argumentPlan
  rw [List.flatMap_eq_nil_iff]
  intro p hp
  rw [if_pos (h p hp)]

theorem argumentPlan_cons_of_null (hn : (argumentAt arguments p.index).isNull = true) :
    argumentPlan (p :: ps) arguments = argumentPlan ps arguments := by
  unfold argumentPlan
  rw [List.flatMap_cons, if_pos hn, List.nil_append]

theorem argumentPlan_cons_of_value {v : Value} (hv : arguments[p.index]? = some (some v))
    (hn : v.isNull = false) :
    argumentPlan (p :: ps) arguments =
      p.requirements.map (p.index, ·) ++ argumentPlan ps arguments := by
  have ha : (argumentAt arguments p.index).isNull = false := by
    rw [argumentAt_of_getElem? hv, hn]
  unfold argumentPlan
  rw [List.flatMap_cons, if_neg (by rw [ha]; exact Bool.false_ne_true)]

/-- **The plan goes by ascending position.** -/
theorem argumentPlan_ascending (h : ByPosition ps) (arguments : Arguments) :
    (argumentPlan ps arguments).Pairwise fun t u => t.1 ≤ u.1 := by
  unfold argumentPlan
  rw [List.pairwise_flatMap]
  have target_eq : ∀ {p : ParameterPolicy} {t : Nat × Requirement},
      t ∈ (if (argumentAt arguments p.index).isNull then []
        else p.requirements.map (p.index, ·)) → t.1 = p.index := by
    intro p t ht
    split at ht
    · cases ht
    · obtain ⟨r, -, rfl⟩ := List.mem_map.1 ht
      rfl
  refine ⟨?_, ?_⟩
  · intro p _
    refine List.Pairwise.imp_of_mem ?_ (List.pairwise_of_forall fun _ _ => trivial)
    intro t u ht hu _
    exact Nat.le_of_eq ((target_eq ht).trans (target_eq hu).symm)
  · refine List.Pairwise.imp ?_ h
    intro first second hlt t ht u hu
    rw [target_eq ht, target_eq hu]
    exact Nat.le_of_lt hlt

/-- The least declared position that is not there. -/
structure FirstMissing (keys : List Nat) (length i : Nat) : Prop where
  declared : i ∈ keys
  outside : length ≤ i
  least : ∀ j ∈ keys, length ≤ j → i ≤ j

/-- A position that is there does not decide which one is missing. -/
theorem FirstMissing.cons_iff {keys : List Nat} {length j : Nat} (hi : i < length) :
    FirstMissing (i :: keys) length j ↔ FirstMissing keys length j := by
  constructor
  · rintro ⟨hmem, hout, hleast⟩
    refine ⟨?_, hout, fun k hk => hleast k (List.mem_cons_of_mem i hk)⟩
    rcases List.mem_cons.1 hmem with rfl | hmem
    · omega
    · exact hmem
  · rintro ⟨hmem, hout, hleast⟩
    refine ⟨List.mem_cons_of_mem i hmem, hout, ?_⟩
    intro k hk hlen
    rcases List.mem_cons.1 hk with rfl | hk
    · omega
    · exact hleast k hk hlen

/-- If the least declared position is not there, it is the one that is missing. -/
theorem FirstMissing.head_iff {keys : List Nat} {length j : Nat} (hlt : ∀ k ∈ keys, i < k)
    (hi : length ≤ i) : FirstMissing (i :: keys) length j ↔ j = i := by
  constructor
  · rintro ⟨hmem, -, hleast⟩
    have hji : j ≤ i := hleast i List.mem_cons_self hi
    rcases List.mem_cons.1 hmem with rfl | hmem
    · rfl
    · have := hlt j hmem
      omega
  · rintro rfl
    refine ⟨List.mem_cons_self, hi, ?_⟩
    intro k hk _
    rcases List.mem_cons.1 hk with rfl | hk
    · exact Nat.le_refl k
    · exact Nat.le_of_lt (hlt k hk)

/-- A check of a value fails by a refusal or an evaluation, never for a missing argument. -/
theorem checkOne_ne_missing (r : Requirement) (v : Value) (name : String) (i n : Nat) :
    (checkOne subject r v state).result.verdict ≠ .error (.missingArgument name i n) := by
  rcases v.list_cases with ⟨items, rfl⟩ | hv
  · rw [checkOne]
    rcases checkCollection_cases subject r state items with
      ⟨e, -, he⟩ | ⟨candidates, -, ⟨d, -, he⟩ | ⟨-, events, he⟩⟩ <;> rw [he] <;> dsimp only <;>
      intro h <;> cases h
  · rw [checkOne_of_not_list hv]
    rcases checkScalar_cases subject r v state with ⟨e, -, he⟩ | ⟨w, -, he⟩ <;> rw [he] <;>
      dsimp only
    · intro h; cases h
    · cases (askEach subject r.permission w.leaves state).result <;> intro h <;> cases h

/-- The visits of the first stage: what they ask, where they end, and what their end says about
the end of the stage. -/
structure Opens (subject : Subject τ) (method : String) (ps : List ParameterPolicy)
    (arguments : Arguments) (state : τ) (run : Run τ (Except GuardError Unit × Arguments))
    (visits : List (Visit Nat τ)) : Prop where
  follows : Follows subject (argumentPlan ps arguments) (argumentAt arguments) state visits
  calls_eq : calls run.effects = asked subject visits
  state_eq : stateAfter subject state visits = run.state
  values_eq : valuesAfter subject (argumentAt arguments) visits = argumentAt run.result.2
  ok_iff : run.result.1 = .ok () ↔
    (∀ m ∈ visits, m.Passed subject) ∧ ∀ i ∈ ps.map (·.index), i < arguments.length
  of_error : ∀ e, run.result.1 = .error e →
    (∃ m ∈ visits, (m.run subject).result.verdict = .error e) ∨ ∀ m ∈ visits, m.Passed subject
  missing_iff : ∀ name i n, run.result.1 = .error (.missingArgument name i n) ↔
    (∀ m ∈ visits, m.Passed subject) ∧ name = method ∧ n = arguments.length ∧
      FirstMissing (ps.map (·.index)) arguments.length i

namespace Opens

variable {v : Value} {visits later : List (Visit Nat τ)}

/-- The position of the first parameter is outside: those of all others are as well. -/
theorem missing (hps : ByPosition (p :: ps)) (hi : arguments.length ≤ p.index) :
    Opens subject method (p :: ps) arguments state
      ⟨(.error (.missingArgument method p.index arguments.length), arguments), [], state⟩ [] := by
  have hlt := hps.lt_of_cons
  -- positions ascend, so nothing after this one is there either
  have hplan : argumentPlan (p :: ps) arguments = [] := by
    apply argumentPlan_eq_nil
    rw [List.forall_mem_cons]
    refine ⟨by rw [argumentAt_of_length_le hi]; rfl, ?_⟩
    intro q hq
    have := hlt q.index (List.mem_map_of_mem hq)
    rw [argumentAt_of_length_le (by omega)]; rfl
  refine ⟨by rw [hplan]; exact .nil, rfl, rfl, rfl, ?_, fun e _ => .inr (List.forall_mem_nil _), ?_⟩
  · constructor
    · intro h
      cases h
    · rintro ⟨-, hin⟩
      have := hin p.index List.mem_cons_self
      omega
  · intro name j n
    rw [List.map_cons, FirstMissing.head_iff hlt hi]
    constructor
    · intro h
      cases h
      exact ⟨List.forall_mem_nil _, rfl, rfl, rfl⟩
    · rintro ⟨-, rfl, rfl, rfl⟩
      rfl

/-- A null argument is passed over. -/
theorem null (hi : p.index < arguments.length) (hn : (argumentAt arguments p.index).isNull = true)
    {run : Run τ (Except GuardError Unit × Arguments)}
    (h : Opens subject method ps arguments state run visits) :
    Opens subject method (p :: ps) arguments state run visits := by
  refine ⟨?_, h.calls_eq, h.state_eq, h.values_eq, ?_, h.of_error, ?_⟩
  · rw [argumentPlan_cons_of_null hn]
    exact h.follows
  · rw [h.ok_iff, List.map_cons, List.forall_mem_cons]
    exact and_congr_right fun _ => (and_iff_right hi).symm
  · intro name j n
    rw [h.missing_iff, List.map_cons, FirstMissing.cons_iff hi]

/-- An argument on which a requirement fails ends the stage. -/
theorem failed (hv : arguments[p.index]? = some (some v)) (hn : v.isNull = false) {e : GuardError}
    (hc : Covers subject p.index p.requirements (argumentAt arguments) state
      (check subject method p.requirements v state) visits)
    (he : (check subject method p.requirements v state).result.verdict = .error e) :
    let first := check subject method p.requirements v state
    Opens subject method (p :: ps) arguments state
      ⟨(.error e, arguments.set p.index (some first.result.value)), first.effects, first.state⟩
      visits := by
  obtain ⟨⟨m, hm, hme⟩, hfollows⟩ := hc.of_error e he
  have hf : ¬ m.Passed subject := by
    intro hp
    cases hme.symm.trans hp
  obtain ⟨hi, -⟩ := List.getElem?_eq_some_iff.1 hv
  dsimp only
  refine ⟨?_, hc.calls_eq, hc.state_eq, ?_, ?_, ?_, ?_⟩
  · rw [argumentPlan_cons_of_value hv hn]
    exact hfollows _
  · rw [hc.values_eq]
    exact (argumentAt_set hi).symm
  · constructor
    · intro h
      cases h
    · rintro ⟨hall, -⟩
      exact absurd (hall m hm) hf
  · rintro _ ⟨⟩
    exact .inl ⟨m, hm, hme⟩
  · intro name j n
    constructor
    · intro h
      cases h
      exact absurd hme (checkOne_ne_missing m.requirement m.value name j n)
    · rintro ⟨hall, -⟩
      exact absurd (hall m hm) hf

/-- After an argument that passes the stage goes on with what it left. -/
theorem passed (hv : arguments[p.index]? = some (some v)) (hn : v.isNull = false)
    (hps : ByPosition (p :: ps))
    (hc : Covers subject p.index p.requirements (argumentAt arguments) state
      (check subject method p.requirements v state) visits)
    (hok : (check subject method p.requirements v state).result.verdict = .ok ())
    {run : Run τ (Except GuardError Unit × Arguments)}
    (h : Opens subject method ps
      (arguments.set p.index (some (check subject method p.requirements v state).result.value))
      (check subject method p.requirements v state).state run later) :
    Opens subject method (p :: ps) arguments state
      { run with effects := (check subject method p.requirements v state).effects ++ run.effects }
      (visits ++ later) := by
  obtain ⟨hall, hfollows⟩ := hc.of_ok hok
  obtain ⟨hi, -⟩ := List.getElem?_eq_some_iff.1 hv
  generalize check subject method p.requirements v state = first at hc hok h hfollows ⊢
  have hgiven : argumentAt (arguments.set p.index (some first.result.value)) =
      Function.update (argumentAt arguments) p.index first.result.value := argumentAt_set hi
  -- what the check left in this slot does not change the plan of the others
  have hplan : argumentPlan ps (arguments.set p.index (some first.result.value)) =
      argumentPlan ps arguments := by
    apply argumentPlan_congr
    intro q hq
    have hne : q.index ≠ p.index := Nat.ne_of_gt (hps.lt_of_cons q.index (List.mem_map_of_mem hq))
    rw [hgiven, Function.update_of_ne hne]
  have hpassed : (∀ m ∈ visits ++ later, m.Passed subject) ↔ ∀ m ∈ later, m.Passed subject := by
    rw [List.forall_mem_append, and_iff_right hall]
  have hok_iff := h.ok_iff
  have hmissing_iff := h.missing_iff
  rw [List.length_set] at hok_iff hmissing_iff
  refine ⟨?_, ?_, ?_, ?_, ?_, ?_, ?_⟩
  · have hlater := h.follows
    rw [hplan, hgiven] at hlater
    rw [argumentPlan_cons_of_value hv hn]
    exact hfollows _ _ hlater
  · dsimp only
    rw [calls_append, asked_append, hc.calls_eq, h.calls_eq]
  · rw [stateAfter_append, hc.state_eq]
    exact h.state_eq
  · rw [valuesAfter_append, hc.values_eq, ← hgiven]
    exact h.values_eq
  · dsimp only
    rw [hok_iff, hpassed, List.map_cons, List.forall_mem_cons, and_iff_right hi]
  · intro e he
    rw [hpassed]
    refine (h.of_error e he).imp_left ?_
    rintro ⟨m, hm, hme⟩
    exact ⟨m, List.mem_append_right visits hm, hme⟩
  · intro name j n
    dsimp only
    rw [hmissing_iff, hpassed, List.map_cons, FirstMissing.cons_iff hi]

end Opens

/-- **The first stage visits the plan of the arguments.** -/
theorem checkArguments_opens (subject : Subject τ) (method : String)
    (ps : List ParameterPolicy) (h : ByPosition ps) (arguments : Arguments) (state : τ) :
    ∃ visits, Opens subject method ps arguments state
      (checkArguments subject method ps arguments state) visits := by
  induction ps generalizing arguments state with
  | nil =>
    refine ⟨[], .nil, rfl, rfl, rfl, ?_, nofun, ?_⟩
    · exact ⟨fun _ => ⟨List.forall_mem_nil _, List.forall_mem_nil _⟩, fun _ => rfl⟩
    · intro name i n
      constructor
      · intro he
        cases he
      · rintro ⟨-, -, -, hfirst⟩
        exact absurd hfirst.declared List.not_mem_nil
  | cons p ps ih =>
    obtain ⟨-, hps⟩ := List.pairwise_cons.1 h
    rcases argument_cases arguments p.index with hi | ⟨hi, hn⟩ | ⟨v, hv, hn⟩
    · rw [checkArguments_missing hi]
      exact ⟨[], .missing h hi⟩
    · rw [checkArguments_null hi hn]
      obtain ⟨visits, hvisits⟩ := ih hps arguments state
      exact ⟨visits, .null hi hn hvisits⟩
    · obtain ⟨visits, hc⟩ := exists_covers subject method p.index p.requirements v
        (argumentAt arguments) (argumentAt_of_getElem? hv) state
      cases hcheck : (check subject method p.requirements v state).result.verdict with
      | error e =>
        rw [checkArguments_of_error hv hn hcheck]
        exact ⟨visits, .failed hv hn hc hcheck⟩
      | ok _ =>
        rw [checkArguments_of_ok hv hn hcheck]
        obtain ⟨later, hlater⟩ := ih hps _ _
        exact ⟨visits ++ later, .passed hv hn h hc hcheck hlater⟩

end Arguments

/-! ## The operation and its result -/

/-- The end of a call once the operation has run: the failure of the operation, a result on
which nothing is to be checked, or visits to the result. -/
inductive Finishes (subject : Subject τ) (rs : List Requirement) (left : OperationRun τ ε) :
    List (Visit Unit τ) → Except (InvocationError ε) (Option Value) → Prop where
  | failed (e : ε) : left.result = .error e → Finishes subject rs left [] (.error (.operation e))
  | unchecked (value : Option Value) : left.result = .ok value →
      (value.getD .null).isNull = true → Finishes subject rs left [] (.ok value)
  | passed {v : Value} {visits : List (Visit Unit τ)} : left.result = .ok (some v) →
      v.isNull = false → Follows subject (rs.map ((), ·)) (fun _ => v) left.state visits →
      (∀ m ∈ visits, m.Passed subject) →
      Finishes subject rs left visits (.ok (some (valuesAfter subject (fun _ => v) visits ())))
  | refused {v : Value} {visits : List (Visit Unit τ)} (e : GuardError) :
      left.result = .ok (some v) → v.isNull = false →
      Follows subject (rs.map ((), ·)) (fun _ => v) left.state visits →
      (∃ m ∈ visits, (m.run subject).result.verdict = .error e) →
      Finishes subject rs left visits (.error (.guard e))

theorem Finishes.ne_missing {rs : List Requirement} {left : OperationRun τ ε}
    {visits : List (Visit Unit τ)} {result : Except (InvocationError ε) (Option Value)}
    (h : Finishes subject rs left visits result) (name : String) (i n : Nat) :
    result ≠ .error (.guard (.missingArgument name i n)) := by
  intro heq
  cases h with
  | failed e => cases heq
  | unchecked value => cases heq
  | passed => cases heq
  | refused e _ _ _ hfailed =>
    cases heq
    obtain ⟨m, -, hm⟩ := hfailed
    exact checkOne_ne_missing m.requirement m.value name i n hm

/-- Where there is nothing to check, nothing is visited. -/
theorem Finishes.eq_nil {rs : List Requirement} {left : OperationRun τ ε}
    {visits : List (Visit Unit τ)} {result : Except (InvocationError ε) (Option Value)}
    (h : Finishes subject rs left visits result)
    (hnull : ∀ v, left.result = .ok (some v) → v.isNull = true) : visits = [] := by
  cases h with
  | failed | unchecked => rfl
  | passed hr hn => rw [hnull _ hr] at hn; cases hn
  | refused _ hr hn => rw [hnull _ hr] at hn; cases hn

theorem Finishes.follows {rs : List Requirement} {left : OperationRun τ ε}
    {visits : List (Visit Unit τ)} {result : Except (InvocationError ε) (Option Value)} {v : Value}
    (h : Finishes subject rs left visits result) (hr : left.result = .ok (some v))
    (hn : v.isNull = false) :
    Follows subject (rs.map ((), ·)) (fun _ => v) left.state visits := by
  cases h with
  | failed _ hr' => cases hr.symm.trans hr'
  | unchecked _ hr' hnull =>
    cases hr.symm.trans hr'
    rw [Option.getD_some, hn] at hnull
    cases hnull
  | passed hr' _ hfollows => cases hr.symm.trans hr'; exact hfollows
  | refused _ hr' _ hfollows => cases hr.symm.trans hr'; exact hfollows

/-- **Once the operation has run** the requirements on its result are visited, if it has one. -/
theorem closing_finishes (subject : Subject τ) (method : String) (rs : List Requirement)
    (operation : GuardedOperation τ ε) (arguments : Arguments) (state : τ) :
    let run := closing subject method rs operation arguments state
    ∃ visits, calls run.effects = .started arguments :: asked subject visits ∧
      run.state = stateAfter subject (operation arguments state).state visits ∧
      Finishes subject rs (operation arguments state) visits run.result.result := by
  dsimp only
  rcases closing_cases subject method rs operation arguments state with
    ⟨e, hr, he⟩ | ⟨value, hr, hn, he⟩ | ⟨v, hr, hn, he⟩ <;> rw [he] <;> dsimp only
  · exact ⟨[], rfl, rfl, .failed e hr⟩
  · exact ⟨[], rfl, rfl, .unchecked value hr hn⟩
  · generalize hleft : operation arguments state = left at hr
    obtain ⟨visits, hc⟩ := exists_covers subject method () rs v (fun _ => v) rfl
      left.state
    have hcalls : calls (.started arguments :: (check subject method rs v left.state).effects) =
        .started arguments :: asked subject visits := by
      rw [← hc.calls_eq]; rfl
    refine ⟨visits, hcalls, hc.state_eq.symm, ?_⟩
    unfold Checked.delivered
    cases hv : (check subject method rs v left.state).result.verdict with
    | error e => exact .refused e hr hn hc.follows (hc.of_error e hv).1
    | ok _ =>
      have hvalue : (check subject method rs v left.state).result.value =
          valuesAfter subject (fun _ => v) visits () := by
        rw [hc.values_eq, Function.update_self]
      dsimp only
      rw [hvalue]
      exact .passed hr hn hc.follows (hc.of_ok hv).1

/-! ## Whole calls -/

section Calls

variable {σ : Type} {g : Guard} {subject : Subject (World σ)} {method : String}
  {policy : MethodPolicy} {arguments : Arguments} {operation : GuardedOperation (World σ) ε}
  {world : World σ}

/-- **An operation is started at most once.** -/
theorem starts_le_one :
    (starts (g.invoke subject method arguments operation world).effects).length ≤ 1 := by
  cases h : (g.opening subject method arguments world).result.1 with
  | error e => rw [Guard.starts_invoke_of_error h]; exact Nat.zero_le 1
  | ok _ => rw [Guard.starts_invoke_of_ok h]; exact Nat.le_refl 1

/-- A call that is not checked is a run of the operation. -/
theorem invoke_unchecked
    (h : g.isEnabled world.switches = false ∨ g.registry.get? method = none) :
    let run := g.invoke subject method arguments operation world
    calls run.effects = [.started arguments] ∧ run.state = (operation arguments world).state ∧
      run.result.result = (operation arguments world).result.mapError .operation := by
  unfold Guard.invoke
  by_cases on : g.isEnabled world.switches = true
  · rcases h with hoff | hm
    · rw [hoff] at on; cases on
    · rw [if_pos on, hm]
      exact ⟨rfl, rfl, rfl⟩
  · rw [if_neg on]
    exact ⟨rfl, rfl, rfl⟩

/-- The calls before the operation, and those from its start on if all of them passed. -/
theorem invoke_visits (subject : Subject (World σ)) (arguments : Arguments)
    (operation : GuardedOperation (World σ) ε) (on : g.isEnabled world.switches = true)
    (hm : g.registry.get? method = some policy) :
    let run := g.invoke subject method arguments operation world
    ∃ visits, Opens subject method policy.parameters.values arguments world
        (g.opening subject method arguments world) visits ∧
      ((∃ e, (g.opening subject method arguments world).result.1 = .error e ∧
        calls run.effects = asked subject visits ∧ run.state = stateAfter subject world visits ∧
        run.result.result = .error (.guard e) ∧
        ((∃ m ∈ visits, (m.run subject).result.verdict = .error e) ∨
          ∀ m ∈ visits, m.Passed subject)) ∨
      ((g.opening subject method arguments world).result.1 = .ok () ∧ ∃ seen later,
        argumentAt seen = valuesAfter subject (argumentAt arguments) visits ∧
        calls run.effects = asked subject visits ++ .started seen :: asked subject later ∧
        run.state =
          stateAfter subject (operation seen (stateAfter subject world visits)).state later ∧
        Finishes subject policy.returns (operation seen (stateAfter subject world visits)) later
          run.result.result)) := by
  obtain ⟨visits, hopens⟩ := checkArguments_opens subject method
    policy.parameters.values policy.byPosition_values arguments world
  rw [← Guard.opening_registered on hm] at hopens
  refine ⟨visits, hopens, ?_⟩
  cases h : (g.opening subject method arguments world).result.1 with
  | error e =>
    left
    rw [Guard.invoke_of_error h]
    exact ⟨e, rfl, hopens.calls_eq, hopens.state_eq.symm, rfl, hopens.of_error e h⟩
  | ok _ =>
    right
    rw [Guard.invoke_of_ok h, Guard.resultRequirements_registered on hm]
    dsimp only
    obtain ⟨later, hcalls, hstate, hfinishes⟩ := closing_finishes subject method
      policy.returns operation (g.opening subject method arguments world).result.2
      (g.opening subject method arguments world).state
    refine ⟨rfl, _, later, hopens.values_eq.symm, ?_, ?_, ?_⟩
    · rw [calls_append, hopens.calls_eq, hcalls]
    · rw [hopens.state_eq]
      exact hstate
    · rw [hopens.state_eq]
      exact hfinishes

end Calls

/-- **The order of calls.** An operation is started at most once. A call that is not checked
does nothing else. A call that is checked visits its arguments by ascending position. Each visit
asks what its requirement asks, in the state that the answer before it left, and ends with the
first answer that is a refusal. The call starts the operation, in the state and with the values
that these visits left, if all of them passed and no argument is missing; and after it visits the
result, unless the operation failed or there is nothing to check. Nothing is asked after a
failure, the call fails as the visit did, and it ends in the state that the last visit left. A
missing argument is reported exactly when the visits before it passed. -/
theorem invoke_calls {σ : Type} (g : Guard) (subject : Subject (World σ)) (method : String)
    (arguments : Arguments) (operation : GuardedOperation (World σ) ε) (world : World σ) :
    let run := g.invoke subject method arguments operation world
    (starts run.effects).length ≤ 1 ∧
    (g.isEnabled world.switches = false ∨ g.registry.get? method = none →
      calls run.effects = [.started arguments] ∧ run.state = (operation arguments world).state ∧
      run.result.result = (operation arguments world).result.mapError .operation) ∧
    ∀ policy, g.isEnabled world.switches = true → g.registry.get? method = some policy →
      ∃ visits : List (Visit Nat (World σ)),
        let passed := ∀ m ∈ visits, m.Passed subject
        let inside := ∀ i ∈ policy.parameters.keys, i < arguments.length
        Follows subject (argumentPlan policy.parameters.values arguments) (argumentAt arguments)
          world visits ∧
        (visits.map Visit.target).Pairwise (· ≤ ·) ∧
        (∀ m ∈ visits, m.Asks subject) ∧
        (¬ (passed ∧ inside) → starts run.effects = [] ∧
          calls run.effects = asked subject visits ∧ run.state = stateAfter subject world visits ∧
          ∃ e, run.result.result = .error (.guard e) ∧
            ((∃ m ∈ visits, (m.run subject).result.verdict = .error e) ∨ passed)) ∧
        (passed ∧ inside → ∃ seen, ∃ later : List (Visit Unit (World σ)),
          argumentAt seen = valuesAfter subject (argumentAt arguments) visits ∧
          calls run.effects = asked subject visits ++ .started seen :: asked subject later ∧
          (∀ m ∈ later, m.Asks subject) ∧
          run.state =
            stateAfter subject (operation seen (stateAfter subject world visits)).state later ∧
          Finishes subject policy.returns (operation seen (stateAfter subject world visits)) later
            run.result.result) ∧
        ∀ name i n, run.result.result = .error (.guard (.missingArgument name i n)) ↔
          passed ∧ name = method ∧ n = arguments.length ∧
            FirstMissing policy.parameters.keys arguments.length i := by
  dsimp only
  refine ⟨starts_le_one, invoke_unchecked, ?_⟩
  intro policy on hm
  obtain ⟨visits, hopens, hend⟩ := invoke_visits subject arguments operation on hm
  have hasc : (visits.map Visit.target).Pairwise (· ≤ ·) := by
    have hplan := argumentPlan_ascending policy.byPosition_values arguments
    have htasks := hplan.sublist hopens.follows.inOrder.sublist
    rw [List.pairwise_map] at htasks ⊢
    exact htasks
  refine ⟨visits, hopens.follows, hasc, fun m _ => m.asks subject, ?_⟩
  have hiff := hopens.ok_iff
  have hmissing := hopens.missing_iff
  rw [policy.map_index_values] at hiff hmissing
  rcases hend with ⟨e, he, hcalls, hstate, hresult, hcause⟩ |
    ⟨hok, seen, later, hseen, hcalls, hstate, hfinishes⟩
  · have hnot : ¬ ((∀ m ∈ visits, m.Passed subject) ∧
        ∀ i ∈ policy.parameters.keys, i < arguments.length) := by
      rw [← hiff, he]
      intro h
      cases h
    refine ⟨fun _ => ⟨Guard.starts_invoke_of_error he, hcalls, hstate, e, hresult, hcause⟩,
      fun hpass => absurd hpass hnot, ?_⟩
    intro name i n
    refine Iff.trans ?_ (hmissing name i n)
    rw [he, hresult]
    simp only [Except.error.injEq, InvocationError.guard.injEq]
  · refine ⟨fun hnot => absurd (hiff.1 hok) hnot,
      fun _ => ⟨seen, later, hseen, hcalls, fun m _ => m.asks subject, hstate, hfinishes⟩, ?_⟩
    -- all declared positions are there, and what comes later reports no missing argument
    intro name i n
    constructor
    · intro h
      exact absurd h (hfinishes.ne_missing name i n)
    · rintro ⟨-, -, -, hfirst⟩
      have hlt := (hiff.1 hok).2 i hfirst.declared
      have := hfirst.outside
      omega

namespace Sample

/-- Answers as often as its state says, and takes the least candidate away. -/
def metered : Subject (World Nat) where
  judge := fun p _ world => match world.own with
    | 0 => ⟨.error (p.deny "spent"), [], world⟩
    | n + 1 => ⟨.ok (), [], { world with own := n }⟩
  narrow := fun p candidates world => match world.own with
    | 0 => ⟨.error (p.deny "spent"), candidates, [], world⟩
    | n + 1 => { Subject.dropLeast.narrow p candidates world with state := { world with own := n } }

/-- Returns a case that lies in two counties. -/
def lookUp : GuardedOperation (World Nat) String := fun arguments world =>
  ⟨.ok (some (.record [("county", .list [.str "north", .str "south"])])), arguments, world⟩

end Sample

/-- A subject that answers no question, and one that answers two: it narrows the argument, allows
the first county of the result and denies the second. -/
theorem invoke_calls_sample :
    let call (answers : Nat) := Sample.guard.invoke Sample.metered "cases.list" Sample.arguments
      Sample.lookUp ⟨⟨[true]⟩, answers⟩
    Sample.guard.isEnabled ⟨[true]⟩ = true ∧
    Sample.guard.registry.get? "cases.list" = some Sample.policy ∧
    (∃ visits : List (Visit Nat (World Nat)), ∃ e, (∀ m ∈ visits, m.Asks Sample.metered) ∧
      starts (call 0).effects = [] ∧ calls (call 0).effects = asked Sample.metered visits ∧
      (call 0).result.result = .error (.guard e)) ∧
    (∃ visits : List (Visit Nat (World Nat)), ∃ seen, ∃ later : List (Visit Unit (World Nat)),
      (∀ m ∈ visits, m.Asks Sample.metered) ∧ (∀ m ∈ later, m.Asks Sample.metered) ∧
      calls (call 2).effects =
        asked Sample.metered visits ++ .started seen :: asked Sample.metered later ∧
      Finishes Sample.metered Sample.policy.returns
        (Sample.lookUp seen (stateAfter Sample.metered ⟨⟨[true]⟩, 2⟩ visits)) later
        (call 2).result.result) ∧
    calls (call 2).effects =
      [.narrowed (Sample.byCounty "cases").permission ⟨[.str "north", .str "south"], by decide⟩
          ⟨[.str "south"], by decide⟩ true,
        .started [some (.list [Sample.case "south"]), none],
        .judged (Sample.byCounty "r").permission (.str "north") true,
        .judged (Sample.byCounty "r").permission (.str "south") false] := by
  intro call
  have on : Sample.guard.isEnabled ⟨[true]⟩ = true := by decide
  have hm : Sample.guard.registry.get? "cases.list" = some Sample.policy := by decide
  refine ⟨on, hm, ?_, ?_, rfl⟩
  · obtain ⟨visits, -, -, hasks, hfails, hpasses, -⟩ := (invoke_calls Sample.guard Sample.metered
      "cases.list" Sample.arguments Sample.lookUp ⟨⟨[true]⟩, 0⟩).2.2 Sample.policy on hm
    have hnot : ¬ ((∀ m ∈ visits, m.Passed Sample.metered) ∧
        ∀ i ∈ Sample.policy.parameters.keys, i < Sample.arguments.length) := by
      intro hpassed
      obtain ⟨seen, later, -, hcalls, -⟩ := hpasses hpassed
      have hstart : Effect.started seen ∈ (call 0).effects.filter Effect.isCall := by
        rw [← calls, hcalls]
        exact List.mem_append_right _ List.mem_cons_self
      have hstarts : starts (call 0).effects = [] := rfl
      have := mem_starts.2 (List.mem_filter.1 hstart).1
      rw [hstarts] at this
      cases this
    obtain ⟨hstarts, hcalls, -, e, he, -⟩ := hfails hnot
    exact ⟨visits, e, hasks, hstarts, hcalls, he⟩
  · obtain ⟨visits, -, -, hasks, hfails, hpasses, -⟩ := (invoke_calls Sample.guard Sample.metered
      "cases.list" Sample.arguments Sample.lookUp ⟨⟨[true]⟩, 2⟩).2.2 Sample.policy on hm
    have hstarts : starts (call 2).effects ≠ [] := by decide
    have hpassed := Classical.not_not.1 fun hnot => hstarts (hfails hnot).1
    obtain ⟨seen, later, -, hcalls, hlater, -, hfinishes⟩ := hpasses hpassed
    exact ⟨visits, seen, later, hasks, hlater, hcalls, hfinishes⟩

end AccessGuard
