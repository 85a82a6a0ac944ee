import AccessGuard.Proofs.Trace
import AccessGuard.Session
import Mathlib.Data.Finset.Card

/-!
# What a guard reports

Beside the notices of its subject a log has what the guard itself reports of its checks: that a
list was narrowed, and that a requirement failed. The counts in a record are taken from sets of
candidates, one of which the subject has had in its hands; they are those of the list before and
after the check all the same.

* `Selector.distinct_le_of_sublist`: each value that is gone takes an element with it.
* `Visit.reports_of_passed`: what is reported of a check that passes.
* `Truthful`: the reports of checks in turn.
* `log_truthful`: the reports of a check and of a call.
-/

namespace AccessGuard

variable {ι κ τ ε : Type}

/-! ## Records -/

/-- The record of an event of the guard. What a subject notices is no such event. -/
def Effect.report? : Effect → Option LogRecord
  | logged e => some e.record
  | _ => none

/-- What the guard itself logs. -/
def reports (effects : List Effect) : List LogRecord := effects.filterMap Effect.report?

@[simp] theorem reports_append (es fs : List Effect) :
    reports (es ++ fs) = reports es ++ reports fs := List.filterMap_append

theorem reports_noticed (notices : List Notice) : reports (notices.map .noticed) = [] := by
  induction notices with
  | nil => rfl
  | cons n ns ih => exact ih

theorem reports_logged (events : List GuardEvent) :
    reports (events.map .logged) = events.map GuardEvent.record := by
  induction events with
  | nil => rfl
  | cons e es ih => exact congrArg (e.record :: ·) ih

/-- That a requirement failed. -/
def failureReport (method : String) (r : Requirement) (e : GuardError) : LogRecord :=
  ⟨.warn, "authorization check failed",
    [("method", .text method), ("permission", .text r.permission.text), ("error", .text e.message)]⟩

/-- How many values elements lead to, each counted once. -/
def Selector.distinct (s : Selector) (items : List Value) : Nat :=
  (items.filterMap fun v => (s.resolve v).toOption).toFinset.card

/-- That a list was narrowed. -/
def narrowingReport (r : Requirement) (items rest : List Value) : LogRecord :=
  ⟨.debug, "collection narrowed",
    [("permission", .text r.permission.text),
      ("candidates_before", .count (r.selector.distinct items)),
      ("candidates_after", .count (r.selector.distinct rest)),
      ("removed", .count (items.length - rest.length))]⟩

/-- That a call was not checked. -/
def bypassReport (method : String) : LogRecord :=
  ⟨.trace, "authorization disabled, invoking directly", [("method", .text method)]⟩

/-- The warnings of a log, in order. -/
def warnings (log : List LogRecord) : List LogRecord :=
  log.filter fun record => decide (record.level = .warn)

/-! ## Counting -/

section Counting

variable {s : Selector} {items rest : List Value} {candidates left : CandidateSet}

namespace Selector

/-- The candidates are counted as the values that the elements lead to. -/
theorem size_of_project (h : s.project items = .ok candidates) :
    candidates.size = s.distinct items := by
  have hsame : candidates.members.toFinset =
      (items.filterMap fun v => (s.resolve v).toOption).toFinset := by
    ext w
    rw [List.mem_toFinset, List.mem_toFinset, List.mem_filterMap]
    refine (mem_of_project h).trans (exists_congr fun v => and_congr_right fun _ => ?_)
    cases s.resolve v <;> simp [Except.toOption]
  unfold distinct
  rw [← hsame, List.toFinset_card_of_nodup candidates.nodup]
  rfl

theorem distinct_append_le (rest gone : List Value) :
    s.distinct (rest ++ gone) ≤ s.distinct rest + gone.length := by
  unfold distinct
  rw [List.filterMap_append, List.toFinset_append]
  refine (Finset.card_union_le ..).trans (Nat.add_le_add_left ?_ _)
  exact (List.toFinset_card_le _).trans (List.length_filterMap_le ..)

/-- **Each value that is gone takes an element with it.** -/
theorem distinct_le_of_sublist (h : rest.Sublist items) :
    s.distinct items ≤ s.distinct rest + (items.length - rest.length) := by
  obtain ⟨gone, hperm⟩ := h.exists_perm_append
  have hdistinct : s.distinct items = s.distinct (rest ++ gone) :=
    congrArg Finset.card (List.toFinset_eq_of_perm _ _ (hperm.filterMap _))
  have hlength : items.length = rest.length + gone.length :=
    hperm.length_eq.trans List.length_append
  rw [hdistinct, hlength, Nat.add_sub_cancel_left]
  exact distinct_append_le rest gone

end Selector

/-- Elements are gone, and with them values that they led to: at least one, and no more than
elements. -/
structure Dwindled (s : Selector) (items rest : List Value) : Prop where
  sublist : rest.Sublist items
  fewer : s.distinct rest < s.distinct items
  removed : s.distinct items - s.distinct rest ≤ items.length - rest.length

theorem CandidateSet.size_retain_contains_le (s t : CandidateSet) :
    (s.retain t.contains).size ≤ t.size := by
  rw [retain_contains_comm]
  exact List.length_filter_le ..

theorem dwindled_survivors (h : s.project items = .ok candidates)
    (hfewer : (left.retain candidates.contains).size < candidates.size) :
    Dwindled s items (survivors s candidates left items) := by
  have hsublist : (survivors s candidates left items).Sublist items := List.filter_sublist
  refine ⟨hsublist, ?_, ?_⟩
  · rw [← Selector.size_of_project h, ← Selector.size_of_project (project_survivors h)]
    exact hfewer
  · have := Selector.distinct_le_of_sublist (s := s) hsublist
    omega

end Counting

/-! ## One check -/

namespace Visit

variable {subject : Subject τ} {m : Visit ι τ}

/-- **A check that narrows**: one of a list, to which the subject agrees without leaving all of the
candidates. -/
def Narrows (subject : Subject τ) (m : Visit ι τ) : Prop :=
  ∃ items candidates, m.value = .list items ∧
    m.requirement.selector.project items = .ok candidates ∧
    let answer := subject.narrow m.requirement.permission candidates m.state
    answer.verdict = .ok () ∧ (answer.left.retain candidates.contains).size < candidates.size

/-- **What is reported of a check that passes**: one record if it narrows, none otherwise. -/
inductive Reports (subject : Subject τ) (m : Visit ι τ) : List LogRecord → Prop where
  | narrowed {items rest : List Value} : m.Narrows subject → m.value = .list items →
      (m.run subject).result.value = .list rest →
      Dwindled m.requirement.selector items rest →
      Reports subject m [narrowingReport m.requirement items rest]
  | silent : ¬ m.Narrows subject → Reports subject m []

end Visit

section OneCheck

variable {subject : Subject τ} {state : τ} {r : Requirement}

theorem reports_askEach (p : Permission) (vs : List Value) :
    reports (askEach subject p vs state).effects = [] := by
  induction vs generalizing state with
  | nil => rfl
  | cons v vs ih =>
    rw [askEach]
    split
    · rw [reports_append, reports_noticed]; rfl
    · rw [reports_append, reports_append, reports_noticed, ih]; rfl

theorem reports_askEffects (p : Permission) (candidates : CandidateSet) :
    reports (askEffects subject p candidates state) = [] := by
  unfold askEffects
  rw [reports_append, reports_noticed]; rfl

theorem reports_checkScalar (v : Value) :
    reports (checkScalar subject r v state).effects = [] := by
  rcases checkScalar_cases subject r v state with ⟨e, -, he⟩ | ⟨w, -, he⟩
  · rw [he]; rfl
  · rw [he]; exact reports_askEach ..

/-- Of a value that is no list nothing is reported. -/
theorem reports_checkOne_of_not_list {v : Value} (hv : v.isList = false) :
    reports (checkOne subject r v state).effects = [] := by
  rw [checkOne_of_not_list hv]
  exact reports_checkScalar v

variable {items : List Value} {candidates left : CandidateSet}

/-- What is logged of a list tells of the elements, though it is counted on sets. -/
theorem record_narrowingEvents (h : r.selector.project items = .ok candidates)
    (hfewer : (left.retain candidates.contains).size < candidates.size) :
    (narrowingEvents r candidates left items).map GuardEvent.record =
      [narrowingReport r items (survivors r.selector candidates left items)] := by
  unfold narrowingEvents narrowingReport
  rw [if_neg (Nat.ne_of_lt hfewer), ← Selector.size_of_project h,
    ← Selector.size_of_project (project_survivors h)]
  rfl

end OneCheck

namespace Visit

variable {subject : Subject τ} {m : Visit ι τ}

theorem not_narrows_of_not_list (hv : m.value.isList = false) : ¬ m.Narrows subject := by
  rintro ⟨items, candidates, hlist, -⟩
  rw [hlist] at hv
  cases hv

section Lists

variable {items : List Value} {candidates : CandidateSet}

theorem run_of_list (hv : m.value = .list items) :
    m.run subject =
      let run := checkCollection subject m.requirement items m.state
      { run with result := ⟨run.result.verdict, .list run.result.value⟩ } := by
  unfold run
  rw [hv]
  rfl

/-- A check of a list passes if the subject agrees to its candidates. -/
theorem passed_iff_of_list (hv : m.value = .list items) :
    m.Passed subject ↔ ∃ candidates, m.requirement.selector.project items = .ok candidates ∧
      (subject.narrow m.requirement.permission candidates m.state).verdict = .ok () := by
  unfold Passed
  rw [run_of_list hv]
  dsimp only
  rcases checkCollection_cases subject m.requirement m.state items with
    ⟨e, hp, he⟩ | ⟨candidates, hp, ⟨d, hask, he⟩ | ⟨hask, events, he⟩⟩ <;> rw [he, hp]
  · exact iff_of_false nofun (by rintro ⟨_, h, -⟩; cases h)
  · refine iff_of_false nofun ?_
    rintro ⟨_, h, hok⟩
    cases h
    cases hask.symm.trans hok
  · exact iff_of_true rfl ⟨candidates, rfl, hask⟩

/-- **A check that narrows does not fail.** -/
theorem Narrows.passed (h : m.Narrows subject) : m.Passed subject := by
  obtain ⟨items, candidates, hv, hp, hask, -⟩ := h
  exact (passed_iff_of_list hv).2 ⟨candidates, hp, hask⟩

/-- Whether a check narrows shows once its candidates are known. -/
theorem narrows_iff (subject : Subject τ) (hv : m.value = .list items)
    (hp : m.requirement.selector.project items = .ok candidates) :
    m.Narrows subject ↔
      let answer := subject.narrow m.requirement.permission candidates m.state
      answer.verdict = .ok () ∧
        (answer.left.retain candidates.contains).size < candidates.size := by
  constructor
  · rintro ⟨items', candidates', hv', hp', hagreed⟩
    cases hv.symm.trans hv'
    cases hp.symm.trans hp'
    exact hagreed
  · intro hagreed
    exact ⟨items, candidates, hv, hp, hagreed⟩

theorem reports_of_agreed (hv : m.value = .list items)
    (hp : m.requirement.selector.project items = .ok candidates)
    (hask : (subject.narrow m.requirement.permission candidates m.state).verdict = .ok ()) :
    m.Reports subject (reports (m.run subject).effects) := by
  have hnarrows := narrows_iff subject hv hp
  rw [run_of_list hv, checkCollection_of_agreed subject m.requirement m.state hp hask]
  dsimp only at hnarrows ⊢
  rw [reports_append, reports_askEffects, reports_logged, List.nil_append]
  -- the guard compares sizes for being equal: a subset can only have fewer or all
  rcases Nat.lt_or_eq_of_le (CandidateSet.size_retain_contains_le
    (subject.narrow m.requirement.permission candidates m.state).left candidates) with
    hfewer | hall
  · have hrest : (m.run subject).result.value =
        .list (survivors m.requirement.selector candidates
          (subject.narrow m.requirement.permission candidates m.state).left items) := by
      rw [run_of_list hv, checkCollection_of_agreed subject m.requirement m.state hp hask]
    rw [record_narrowingEvents hp hfewer]
    exact .narrowed (hnarrows.2 ⟨hask, hfewer⟩) hv hrest (dwindled_survivors hp hfewer)
  · have hsilent : ¬ m.Narrows subject := fun hn => Nat.ne_of_lt (hnarrows.1 hn).2 hall
    unfold narrowingEvents
    rw [if_pos hall]
    exact .silent hsilent

end Lists

/-- **What is reported of a check that passes.** -/
theorem reports_of_passed (h : m.Passed subject) :
    m.Reports subject (reports (m.run subject).effects) := by
  rcases m.value.list_cases with ⟨items, hv⟩ | hv
  · obtain ⟨candidates, hp, hask⟩ := (passed_iff_of_list hv).1 h
    exact reports_of_agreed hv hp hask
  · have hlog : reports (m.run subject).effects = [] := reports_checkOne_of_not_list hv
    rw [hlog]
    exact .silent (not_narrows_of_not_list hv)

/-- A check that fails reports nothing itself. -/
theorem reports_of_failed (h : ¬ m.Passed subject) : reports (m.run subject).effects = [] := by
  rcases m.value.list_cases with ⟨items, hv⟩ | hv
  · rw [passed_iff_of_list hv] at h
    rw [run_of_list hv]
    rcases checkCollection_cases subject m.requirement m.state items with
      ⟨e, -, he⟩ | ⟨candidates, hp, ⟨d, -, he⟩ | ⟨hask, -⟩⟩
    · rw [he]; rfl
    · rw [he]; exact reports_askEffects ..
    · exact absurd ⟨candidates, hp, hask⟩ h
  · exact reports_checkOne_of_not_list hv

/-- The same check, seen as one of another target. -/
def retarget (f : ι → κ) (m : Visit ι τ) : Visit κ τ :=
  ⟨f m.target, m.requirement, m.value, m.state⟩

end Visit

/-! ## Checks in turn -/

/-- The failure of a check: a refusal, or an evaluation that failed. An argument that is missing
fails no check. -/
def checkFailure? : Except GuardError Unit → Option GuardError
  | .error (.denied d) => some (.denied d)
  | .error (.evaluation e) => some (.evaluation e)
  | .error (.missingArgument ..) | .ok _ => none

theorem checkFailure?_error {e : GuardError} (h : ∀ name i n, e ≠ .missingArgument name i n) :
    checkFailure? (.error e) = some e := by
  cases e with
  | denied d => rfl
  | evaluation e => rfl
  | missingArgument name i n => exact absurd rfl (h name i n)

/-- **A truthful log of checks in turn**: each check that narrows is reported once, and a check
that fails is reported at the end. -/
inductive Truthful (subject : Subject τ) (method : String) :
    List (Visit ι τ) → Option GuardError → List LogRecord → Prop where
  | done : Truthful subject method [] none []
  | passed {m : Visit ι τ} {visits : List (Visit ι τ)} {failure : Option GuardError}
      {records log : List LogRecord} : m.Passed subject → m.Reports subject records →
      Truthful subject method visits failure log →
      Truthful subject method (m :: visits) failure (records ++ log)
  | failed {m : Visit ι τ} {e : GuardError} : (m.run subject).result.verdict = .error e →
      ¬ m.Narrows subject →
      Truthful subject method [m] (some e) [failureReport method m.requirement e]

/-- **A warning for a failure**: there is one exactly if a check failed, and then it ends the
log. -/
structure Warned (method : String) (failure : Option GuardError) (log : List LogRecord) : Prop where
  count : (warnings log).length = if failure.isSome then 1 else 0
  last : ∀ e, failure = some e → ∃ r, log.getLast? = some (failureReport method r e)

namespace Truthful

variable {subject : Subject τ} {method : String} {visits later : List (Visit ι τ)}
  {failure : Option GuardError} {log log' : List LogRecord}

theorem append (h : Truthful subject method visits none log)
    (hlater : Truthful subject method later failure log') :
    Truthful subject method (visits ++ later) failure (log ++ log') := by
  generalize hnone : none = none' at h
  induction h with
  | done => exact hlater
  | passed hp hr _ ih =>
    rw [List.append_assoc]
    exact .passed hp hr (ih hnone)
  | failed => cases hnone

/-- It does not show in the log which target a check is of. -/
theorem retarget (f : ι → κ) (h : Truthful subject method visits failure log) :
    Truthful subject method (visits.map (Visit.retarget f)) failure log := by
  induction h with
  | done => exact .done
  | passed hp hr _ ih =>
    refine .passed hp ?_ ih
    cases hr with
    | narrowed hn hv hrest hd => exact .narrowed hn hv hrest hd
    | silent hn => exact .silent hn
  | failed he hn => exact .failed he hn

/-- That a list was narrowed is no warning. -/
theorem warnings_of_reports {m : Visit ι τ} {records : List LogRecord}
    (h : m.Reports subject records) : warnings records = [] := by
  cases h <;> rfl

theorem warned (h : Truthful subject method visits failure log) : Warned method failure log := by
  induction h with
  | done => exact ⟨rfl, nofun⟩
  | @passed m visits failure records log _ hr _ ih =>
    refine ⟨?_, ?_⟩
    · have happend : warnings (records ++ log) = warnings records ++ warnings log :=
        List.filter_append ..
      rw [happend, warnings_of_reports hr]
      exact ih.count
    · intro e he
      obtain ⟨r, hlast⟩ := ih.last e he
      refine ⟨r, ?_⟩
      rw [List.getLast?_append, hlast]
      rfl
  | failed =>
    refine ⟨rfl, ?_⟩
    intro e he
    cases he
    exact ⟨_, rfl⟩

end Truthful

section Checks

variable {subject : Subject τ} {method : String} {state : τ} {rs : List Requirement}

/-- **The requirements on one value are reported as they are visited.** -/
theorem check_truthful [DecidableEq ι] (method : String) {target : ι} {given : ι → Value}
    {visits : List (Visit ι τ)}
    (h : Follows subject (rs.map (target, ·)) given state visits) :
    let run := check subject method rs (given target) state
    Truthful subject method visits (checkFailure? run.result.verdict) (reports run.effects) := by
  dsimp only
  induction rs generalizing given state visits with
  | nil =>
    obtain rfl : visits = [] := List.map_eq_nil_iff.1 (List.prefix_nil.1 h.inOrder)
    exact .done
  | cons r rs ih =>
    -- the plan says what is visited first; the verdict, whether anything is visited after it
    obtain ⟨later, rfl⟩ := h.head
    dsimp only at h ⊢
    cases hv : (checkOne subject r (given target) state).result.verdict with
    | error e =>
      have hfailed : ¬ Visit.Passed subject ⟨target, r, given target, state⟩ := by
        intro hp
        cases hv.symm.trans hp
      have hfailure : checkFailure? (.error e) = some e := by
        apply checkFailure?_error
        rintro name i n rfl
        exact checkOne_ne_missing r (given target) name i n hv
      have hreports : reports (checkOne subject r (given target) state).effects = [] :=
        Visit.reports_of_failed hfailed
      rw [h.eq_nil_of_failed hfailed, check_cons_of_error hv]
      dsimp only
      rw [hv, hfailure, reports_append, hreports]
      exact .failed hv (fun hn => hfailed hn.passed)
    | ok _ =>
      have hlater := ih (h.tail hv)
      rw [Function.update_self] at hlater
      rw [check_cons_of_ok hv]
      dsimp only
      rw [reports_append]
      exact .passed hv (Visit.reports_of_passed hv) hlater

/-- **The arguments of a call are reported as they are visited.** -/
theorem checkArguments_truthful (method : String) {ps : List ParameterPolicy}
    (hps : ByPosition ps) {arguments : Arguments} {visits : List (Visit Nat τ)}
    (h : Follows subject (argumentPlan ps arguments) (argumentAt arguments) state visits) :
    let run := checkArguments subject method ps arguments state
    Truthful subject method visits (checkFailure? run.result.1) (reports run.effects) := by
  dsimp only
  induction ps generalizing arguments state visits with
  | nil =>
    rw [h.unique .nil]
    exact .done
  | cons p ps ih =>
    obtain ⟨-, hlater⟩ := List.pairwise_cons.1 hps
    rcases argument_cases arguments p.index with hi | ⟨hi, hn⟩ | ⟨v, hv, hn⟩
    · have hmissing : Opens subject method (p :: ps) arguments state _ [] := .missing hps hi
      rw [h.unique hmissing.follows, checkArguments_missing hi]
      exact .done
    · rw [argumentPlan_cons_of_null hn] at h
      rw [checkArguments_null hi hn]
      exact ih hlater h
    · -- a plan is followed in one way, so these are the visits to this argument and to the others
      have hgiven : argumentAt arguments p.index = v := argumentAt_of_getElem? hv
      obtain ⟨first, hc⟩ := exists_covers subject method p.index p.requirements v
        (argumentAt arguments) hgiven state
      have hfirst := check_truthful method hc.follows
      rw [hgiven] at hfirst
      dsimp only at hfirst
      cases hcheck : (check subject method p.requirements v state).result.verdict with
      | error e =>
        rw [h.unique (Opens.failed hv hn hc hcheck).follows, checkArguments_of_error hv hn hcheck]
        rw [hcheck] at hfirst
        exact hfirst
      | ok _ =>
        obtain ⟨rest, hrest⟩ := checkArguments_opens subject method ps hlater
          (arguments.set p.index (some (check subject method p.requirements v state).result.value))
          (check subject method p.requirements v state).state
        rw [h.unique (Opens.passed hv hn hps hc hcheck hrest).follows,
          checkArguments_of_ok hv hn hcheck]
        rw [hcheck] at hfirst
        dsimp only
        rw [reports_append]
        exact hfirst.append (ih hlater hrest.follows)

end Checks

/-! ## Whole calls -/

/-- What the guard itself says of a call. A failure of the operation is none of its own. -/
def Invoked.verdict (i : Invoked ε) : Except GuardError Unit :=
  match i.result with
  | .error (.guard e) => .error e
  | .error (.operation _) | .ok _ => .ok ()

theorem verdict_delivered (checked : Checked Value) (arguments : Arguments) :
    (⟨checked.delivered, arguments⟩ : Invoked ε).verdict = checked.verdict := by
  unfold Checked.delivered Invoked.verdict
  cases checked.verdict <;> rfl

/-- An operation may fail, but not by the guard. -/
theorem verdict_runOperation (operation : GuardedOperation τ ε) (arguments : Arguments)
    (state : τ) : (runOperation operation arguments state).result.verdict = .ok () := by
  unfold runOperation Invoked.verdict
  dsimp only
  cases (operation arguments state).result <;> rfl

/-- The checks of a call, slot by slot. -/
def callChecks (visits : List (Visit Nat τ)) (later : List (Visit Unit τ)) : List (Visit Slot τ) :=
  visits.map (Visit.retarget .parameter) ++ later.map (Visit.retarget fun _ => .result)

/-- **The requirements on a result are reported as they are visited.** -/
theorem closing_truthful (subject : Subject τ) (method : String) (rs : List Requirement)
    (operation : GuardedOperation τ ε) (arguments : Arguments) (state : τ) :
    let run := closing subject method rs operation arguments state
    ∃ visits, Finishes subject rs (operation arguments state) visits run.result.result ∧
      Truthful subject method visits (checkFailure? run.result.verdict) (reports run.effects) := by
  dsimp only
  obtain ⟨visits, -, -, hfinishes⟩ := closing_finishes subject method rs operation arguments state
  refine ⟨visits, hfinishes, ?_⟩
  rcases closing_cases subject method rs operation arguments state with
    ⟨e, hr, he⟩ | ⟨value, hr, hn, he⟩ | ⟨v, hr, hn, he⟩
  · rw [hfinishes.eq_nil (by rw [hr]; nofun), he]
    exact .done
  · rw [hfinishes.eq_nil (by rw [hr]; rintro v ⟨⟩; exact hn), he]
    exact .done
  · rw [he]
    dsimp only
    rw [verdict_delivered]
    exact check_truthful method (hfinishes.follows hr hn)

section Calls

variable {σ : Type} {g : Guard} {method : String} {policy : MethodPolicy} {world : World σ}

/-- A call that is not checked reports at most that, and the guard has nothing against it. -/
theorem invoke_unchecked_reports (g : Guard) (subject : Subject (World σ)) (method : String)
    (arguments : Arguments) (operation : GuardedOperation (World σ) ε) (world : World σ)
    (h : g.isEnabled world.switches = false ∨ g.registry.get? method = none) :
    let run := g.invoke subject method arguments operation world
    checkFailure? run.result.verdict = none ∧
      reports run.effects =
        if g.isEnabled world.switches then [] else [bypassReport method] := by
  have hverdict : checkFailure? (runOperation operation arguments world).result.verdict = none := by
    rw [verdict_runOperation]
    rfl
  unfold Guard.invoke
  by_cases on : g.isEnabled world.switches = true
  · rcases h with hoff | hm
    · rw [hoff] at on; cases on
    · rw [if_pos on, if_pos on, hm]
      exact ⟨hverdict, rfl⟩
  · rw [if_neg on, if_neg on]
    exact ⟨hverdict, rfl⟩

/-- The checks of a call that is checked, and their reports. -/
theorem invoke_truthful (subject : Subject (World σ)) (arguments : Arguments)
    (operation : GuardedOperation (World σ) ε) (on : g.isEnabled world.switches = true)
    (hm : g.registry.get? method = some policy) :
    let run := g.invoke subject method arguments operation world
    ∃ visits later,
      Follows subject (argumentPlan policy.parameters.values arguments) (argumentAt arguments)
        world visits ∧
      (starts run.effects = [] → later = []) ∧
      (∀ seen, .started seen ∈ run.effects → Finishes subject policy.returns
        (operation seen (stateAfter subject world visits)) later run.result.result) ∧
      Truthful subject method (callChecks visits later) (checkFailure? run.result.verdict)
        (reports run.effects) := by
  dsimp only
  obtain ⟨visits, hopens⟩ := checkArguments_opens subject method policy.parameters.values
    policy.byPosition_values arguments world
  have hbefore := checkArguments_truthful method policy.byPosition_values hopens.follows
  rw [← Guard.opening_registered on hm] at hopens
  dsimp only at hbefore
  rw [← Guard.opening_registered on hm] at hbefore
  cases h : (g.opening subject method arguments world).result.1 with
  | error e =>
    refine ⟨visits, [], hopens.follows, fun _ => rfl, ?_, ?_⟩
    · intro seen hseen
      obtain ⟨hok, -⟩ := Guard.started_iff.1 hseen
      cases h.symm.trans hok
    · rw [h] at hbefore
      rw [Guard.invoke_of_error h, callChecks, List.map_nil, List.append_nil]
      exact hbefore.retarget Slot.parameter
  | ok _ =>
    obtain ⟨later, hfinishes, hafter⟩ := closing_truthful subject method policy.returns operation
      (g.opening subject method arguments world).result.2
      (g.opening subject method arguments world).state
    have hrun : g.invoke subject method arguments operation world = _ := Guard.invoke_of_ok h
    rw [Guard.resultRequirements_registered on hm] at hrun
    refine ⟨visits, later, hopens.follows, ?_, ?_, ?_⟩
    · intro hnone
      rw [Guard.starts_invoke_of_ok h] at hnone
      cases hnone
    · intro seen hseen
      obtain ⟨-, rfl⟩ := Guard.started_iff.1 hseen
      rw [hrun, hopens.state_eq]
      exact hfinishes
    · rw [h] at hbefore
      rw [hrun]
      dsimp only
      rw [reports_append]
      exact (hbefore.retarget Slot.parameter).append (hafter.retarget _)

end Calls

/-- **The log tells the truth.** Whether a call is checked or not, and also where requirements are
checked by themselves: there is a warning exactly if it ends because a check failed, and the
warning is the last report, with the method, the requirement that failed and the error. A call
that is not checked reports only that enforcement is off. Of a call that is checked each check is
reported, first of the arguments and then of the result: by one record if it narrows a list, whose
counts are those of the list before and after, and by none if it does not. -/
theorem log_truthful {σ : Type} (method : String) :
    (∀ (subject : Subject τ) (rs : List Requirement) (v : Value) (state : τ),
      let run := check subject method rs v state
      let failure := checkFailure? run.result.verdict
      let log := reports run.effects
      Warned method failure log ∧
      ∃ visits : List (Visit Unit τ),
        Follows subject (rs.map ((), ·)) (fun _ => v) state visits ∧
        Truthful subject method visits failure log) ∧
    ∀ (g : Guard) (subject : Subject (World σ)) (arguments : Arguments)
      (operation : GuardedOperation (World σ) ε) (world : World σ),
      let run := g.invoke subject method arguments operation world
      let failure := checkFailure? run.result.verdict
      let log := reports run.effects
      Warned method failure log ∧
      (g.isEnabled world.switches = false → log = [bypassReport method]) ∧
      (g.isEnabled world.switches = true → g.registry.get? method = none → log = []) ∧
      ∀ policy, g.isEnabled world.switches = true → g.registry.get? method = some policy →
        ∃ visits later,
          Follows subject (argumentPlan policy.parameters.values arguments)
            (argumentAt arguments) world visits ∧
          (starts run.effects = [] → later = []) ∧
          (∀ seen, .started seen ∈ run.effects → Finishes subject policy.returns
            (operation seen (stateAfter subject world visits)) later run.result.result) ∧
          Truthful subject method (callChecks visits later) failure log := by
  refine ⟨?_, ?_⟩
  · intro subject rs v state
    obtain ⟨visits, hc⟩ := exists_covers subject method () rs v (fun _ => v) rfl state
    have htruthful := check_truthful method hc.follows
    exact ⟨htruthful.warned, visits, hc.follows, htruthful⟩
  · intro g subject arguments operation world
    dsimp only
    have hunchecked := invoke_unchecked_reports g subject method arguments operation world
    refine ⟨?_, ?_, ?_, fun policy on hm => invoke_truthful subject arguments operation on hm⟩
    · by_cases on : g.isEnabled world.switches = true
      · cases hm : g.registry.get? method with
        | none =>
          obtain ⟨hnone, hlog⟩ := hunchecked (.inr hm)
          rw [hnone, hlog, if_pos on]
          exact ⟨rfl, nofun⟩
        | some policy =>
          obtain ⟨visits, later, -, -, -, htruthful⟩ :=
            invoke_truthful subject arguments operation on hm
          exact htruthful.warned
      · obtain ⟨hnone, hlog⟩ := hunchecked (.inl (Bool.eq_false_iff.2 on))
        rw [hnone, hlog, if_neg on]
        exact ⟨rfl, nofun⟩
    · intro off
      rw [(hunchecked (.inl off)).2, if_neg (by rw [off]; exact Bool.false_ne_true)]
    · intro on hm
      rw [(hunchecked (.inr hm)).2, if_pos on]

/-- A subject that puts a county into the set which no case has: it is not counted, and of the
result, which has all of its candidates left, nothing is reported. Another subject refuses. -/
theorem log_truthful_sample :
    let adding : Subject (World Unit) := .replaceWith (.ofList [.str "south", .str "west"])
    let refusing : Subject (World Unit) := .deny "no"
    let run (subject : Subject (World Unit)) :=
      Sample.guard.invoke subject "cases.list" Sample.arguments Sample.first Sample.world
    let log := [narrowingReport (Sample.byCounty "cases")
      [Sample.case "north", Sample.case "south"] [Sample.case "south"]]
    Sample.guard.isEnabled Sample.world.switches = true ∧
    Sample.guard.registry.get? "cases.list" = some Sample.policy ∧
    (∃ visits later, Follows adding
        (argumentPlan Sample.policy.parameters.values Sample.arguments)
        (argumentAt Sample.arguments) Sample.world visits ∧
      Truthful adding "cases.list" (callChecks visits later) none log) ∧
    ∃ e, Warned "cases.list" (some e) (reports (run refusing).effects) := by
  intro adding refusing run log
  have on : Sample.guard.isEnabled Sample.world.switches = true := by decide
  have hm : Sample.guard.registry.get? "cases.list" = some Sample.policy := by decide
  have hlog : reports (run adding).effects = log := by decide +kernel
  have htruthful := fun subject => (log_truthful (τ := Unit) "cases.list").2 Sample.guard subject
    Sample.arguments Sample.first Sample.world
  obtain ⟨visits, later, hfollows, -, -, hadding⟩ := (htruthful adding).2.2.2 Sample.policy on hm
  rw [show reports _ = log from hlog] at hadding
  exact ⟨on, hm, ⟨visits, later, hfollows, hadding⟩, _, (htruthful refusing).1⟩

end AccessGuard
