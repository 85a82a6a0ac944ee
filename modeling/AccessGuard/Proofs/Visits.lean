import AccessGuard.Proofs.Stages
import Mathlib.Logic.Function.Basic

/-!
# Visits

A check visits requirements in turn. A visit asks the subject about the value that its target
holds by then, in the state reached by then, and the first visit that fails is the last.

* `checkOne_asks`: what one requirement asks.
* `Follows`: visits of a plan, each determined by those before it.
* `exists_covers`: the checks of one value are visits.
-/

namespace AccessGuard

variable {ι τ : Type}

/-! ## Calls -/

/-- Does something outside of the guard run: the subject, or the operation? -/
def Effect.isCall : Effect → Bool
  | judged .. | narrowed .. | started _ => true
  | noticed _ | logged _ => false

/-- What is asked and started, in order. -/
def calls (effects : List Effect) : List Effect := effects.filter Effect.isCall

@[simp] theorem calls_append (es fs : List Effect) : calls (es ++ fs) = calls es ++ calls fs :=
  List.filter_append ..

theorem calls_noticed (notices : List Notice) : calls (notices.map .noticed) = [] := by
  induction notices with
  | nil => rfl
  | cons n ns ih => exact ih

theorem calls_logged (events : List GuardEvent) : calls (events.map .logged) = [] := by
  induction events with
  | nil => rfl
  | cons e es ih => exact ih

/-- A run without what is noticed and logged. -/
def Run.callsOnly {α : Type} (run : Run τ α) : Run τ α := { run with effects := calls run.effects }

/-! ## The answers of a subject -/

namespace Subject

variable {subject : Subject τ} {p : Permission} {v : Value} {vs : List Value} {state : τ}

/-- The state in which questions about some values leave a subject, one after the other. -/
def stateAfterEach (subject : Subject τ) (p : Permission) (vs : List Value) (state : τ) : τ :=
  vs.foldl (fun state v => (subject.judge p v state).state) state

/-- A subject allows each of some values, in the state in which the question before it left the
subject. -/
def AllowsEach (subject : Subject τ) (p : Permission) (vs : List Value) (state : τ) : Prop :=
  ∀ before v after, vs = before ++ v :: after →
    (subject.judge p v (subject.stateAfterEach p before state)).verdict = .ok ()

theorem allowsEach_nil : subject.AllowsEach p [] state := by
  intro before v after h
  simp at h

theorem AllowsEach.cons (hv : (subject.judge p v state).verdict = .ok ())
    (hvs : subject.AllowsEach p vs (subject.judge p v state).state) :
    subject.AllowsEach p (v :: vs) state := by
  intro before u after h
  cases before with
  | nil =>
    cases h
    exact hv
  | cons b before =>
    cases h
    exact hvs before u after rfl

end Subject

/-! ## One requirement -/

/-- **What a requirement asks**, with the answers of the subject, and what comes of it: the
questions, the verdict, and the value and the state that are left. For a list there is one question
with all its candidates, and the elements stay whose candidates the subject leaves. For another
value the leaves that the selector leads to are asked about from left to right, each in the state
that the answer before it left, up to the first that is refused. Where the selector fails nothing
is asked. -/
inductive Requirement.Asks (r : Requirement) (subject : Subject τ) (state : τ) :
    Value → Run τ (Checked Value) → Prop where
  | unprojected {items : List Value} {e : EvaluationError} :
      r.selector.project items = .error e →
      Asks r subject state (.list items) ⟨⟨.error (.evaluation e), .list items⟩, [], state⟩
  | declined {items : List Value} {candidates : CandidateSet} {answer : Narrowing τ} {d : Denial} :
      r.selector.project items = .ok candidates →
      subject.narrow r.permission candidates state = answer → answer.verdict = .error d →
      Asks r subject state (.list items) ⟨⟨.error (.denied d), .list items⟩,
        [.narrowed r.permission candidates answer.left false], answer.state⟩
  | agreed {items : List Value} {candidates : CandidateSet} {answer : Narrowing τ} :
      r.selector.project items = .ok candidates →
      subject.narrow r.permission candidates state = answer → answer.verdict = .ok () →
      Asks r subject state (.list items)
        ⟨⟨.ok (), .list (survivors r.selector candidates answer.left items)⟩,
          [.narrowed r.permission candidates answer.left true], answer.state⟩
  | unresolved {v : Value} {e : EvaluationError} : v.isList = false →
      r.selector.resolve v = .error e →
      Asks r subject state v ⟨⟨.error (.evaluation e), v⟩, [], state⟩
  | allowed {v w : Value} : v.isList = false → r.selector.resolve v = .ok w →
      subject.AllowsEach r.permission w.leaves state →
      Asks r subject state v ⟨⟨.ok (), v⟩, w.leaves.map fun leaf => .judged r.permission leaf true,
        subject.stateAfterEach r.permission w.leaves state⟩
  | refused {v w leaf : Value} {before after : List Value} {answer : Judgement τ} {d : Denial} :
      v.isList = false → r.selector.resolve v = .ok w → w.leaves = before ++ leaf :: after →
      subject.AllowsEach r.permission before state →
      subject.judge r.permission leaf (subject.stateAfterEach r.permission before state) = answer →
      answer.verdict = .error d →
      Asks r subject state v ⟨⟨.error (.denied d), v⟩,
        (before.map fun u => .judged r.permission u true) ++ [.judged r.permission leaf false],
        answer.state⟩

section Requirement

variable {subject : Subject τ} {state : τ}

/-- Either all values are allowed, or the first that is not was the last to be asked about. -/
theorem askEach_cases (subject : Subject τ) (p : Permission) (vs : List Value) (state : τ) :
    (subject.AllowsEach p vs state ∧ (askEach subject p vs state).callsOnly =
      ⟨.ok (), vs.map fun v => .judged p v true, subject.stateAfterEach p vs state⟩) ∨
    ∃ before v after answer d, vs = before ++ v :: after ∧ subject.AllowsEach p before state ∧
      subject.judge p v (subject.stateAfterEach p before state) = answer ∧
      answer.verdict = .error d ∧ (askEach subject p vs state).callsOnly = ⟨.error d,
        (before.map fun u => .judged p u true) ++ [.judged p v false], answer.state⟩ := by
  induction vs generalizing state with
  | nil => exact .inl ⟨Subject.allowsEach_nil, rfl⟩
  | cons v vs ih =>
    unfold askEach Run.callsOnly
    dsimp only
    cases hv : (subject.judge p v state).verdict with
    | error d =>
      right
      refine ⟨[], v, vs, _, d, rfl, Subject.allowsEach_nil, rfl, hv, ?_⟩
      dsimp only
      rw [calls_append, calls_noticed]
      rfl
    | ok _ =>
      dsimp only
      rw [calls_append, calls_append, calls_noticed]
      rcases ih (subject.judge p v state).state with
        ⟨hall, hrun⟩ | ⟨before, u, after, answer, d, rfl, hbefore, hu, hd, hrun⟩
      · left
        obtain ⟨hresult, hcalls, hstate⟩ := Run.mk.inj hrun
        refine ⟨.cons hv hall, ?_⟩
        rw [hresult, hcalls, hstate]
        rfl
      · right
        obtain ⟨hresult, hcalls, hstate⟩ := Run.mk.inj hrun
        refine ⟨v :: before, u, after, answer, d, rfl, .cons hv hbefore, hu, hd, ?_⟩
        rw [hresult, hcalls, hstate]
        rfl

theorem checkCollection_asks (r : Requirement) (items : List Value) :
    r.Asks subject state (.list items) (checkOne subject r (.list items) state).callsOnly := by
  rw [checkOne]
  unfold Run.callsOnly
  rcases checkCollection_cases subject r state items with
    ⟨e, hp, he⟩ | ⟨candidates, hp, ⟨d, hv, he⟩ | ⟨hv, events, he⟩⟩ <;> rw [he] <;> dsimp only
  · exact .unprojected hp
  · unfold askEffects
    dsimp only
    rw [calls_append, calls_noticed, hv]
    exact .declined hp rfl hv
  · unfold askEffects
    dsimp only
    rw [calls_append, calls_append, calls_noticed, calls_logged, hv]
    exact .agreed hp rfl hv

theorem checkScalar_asks (r : Requirement) {v : Value} (hv : v.isList = false) :
    r.Asks subject state v (checkOne subject r v state).callsOnly := by
  rw [checkOne_of_not_list hv]
  rcases checkScalar_cases subject r v state with ⟨e, hr, he⟩ | ⟨w, hr, he⟩ <;> rw [he] <;>
    dsimp only
  · exact .unresolved hv hr
  · rcases askEach_cases subject r.permission w.leaves state with
      ⟨hall, hrun⟩ | ⟨before, u, after, answer, d, hleaves, hbefore, hu, hd, hrun⟩
    · obtain ⟨hresult, hcalls, hstate⟩ := Run.mk.inj hrun
      unfold Run.callsOnly
      dsimp only
      rw [hresult, hcalls, hstate]
      exact .allowed hv hr hall
    · obtain ⟨hresult, hcalls, hstate⟩ := Run.mk.inj hrun
      unfold Run.callsOnly
      dsimp only
      rw [hresult, hcalls, hstate]
      exact .refused hv hr hleaves hbefore hu hd

/-- **What a requirement asks**, whatever the subject answers. -/
theorem checkOne_asks (r : Requirement) (v : Value) :
    r.Asks subject state v (checkOne subject r v state).callsOnly := by
  rcases v.list_cases with ⟨items, rfl⟩ | hv
  · exact checkCollection_asks r items
  · exact checkScalar_asks r hv

end Requirement

/-! ## Visits -/

/-- A requirement checked on what its target holds by then, in the state reached by then. -/
structure Visit (ι τ : Type) where
  target : ι
  requirement : Requirement
  value : Value
  state : τ

namespace Visit

/-- What is checked, on what. -/
def task (m : Visit ι τ) : ι × Requirement := (m.target, m.requirement)

/-- The check itself. -/
def run (subject : Subject τ) (m : Visit ι τ) : Run τ (Checked Value) :=
  checkOne subject m.requirement m.value m.state

/-- The requirement is met. -/
def Passed (subject : Subject τ) (m : Visit ι τ) : Prop :=
  (m.run subject).result.verdict = .ok ()

/-- What the subject is asked. -/
def questions (subject : Subject τ) (m : Visit ι τ) : List Effect := calls (m.run subject).effects

/-- The questions of a visit, its verdict, and the value and the state that it leaves are those of
its requirement, as the subject answers. -/
def Asks (subject : Subject τ) (m : Visit ι τ) : Prop :=
  m.requirement.Asks subject m.state m.value (m.run subject).callsOnly

theorem asks (subject : Subject τ) (m : Visit ι τ) : m.Asks subject :=
  checkOne_asks m.requirement m.value

end Visit

variable {subject : Subject τ} {given : ι → Value} {state : τ} {plan : List (ι × Requirement)}
  {m : Visit ι τ} {visits later : List (Visit ι τ)}

/-- The questions of several visits. -/
def asked (subject : Subject τ) (visits : List (Visit ι τ)) : List Effect :=
  visits.flatMap (Visit.questions subject)

theorem asked_append :
    asked subject (visits ++ later) = asked subject visits ++ asked subject later :=
  List.flatMap_append

/-- The state after visits that begin in a state. -/
def stateAfter (subject : Subject τ) (state : τ) (visits : List (Visit ι τ)) : τ :=
  visits.foldl (fun _ m => (m.run subject).state) state

theorem stateAfter_append :
    stateAfter subject state (visits ++ later) =
      stateAfter subject (stateAfter subject state visits) later :=
  List.foldl_append

variable [DecidableEq ι]

/-- What the targets hold after visits, from what they were given to hold. -/
def valuesAfter (subject : Subject τ) (given : ι → Value) (visits : List (Visit ι τ)) :
    ι → Value :=
  visits.foldl (fun given m => Function.update given m.target (m.run subject).result.value) given

theorem valuesAfter_append :
    valuesAfter subject given (visits ++ later) =
      valuesAfter subject (valuesAfter subject given visits) later :=
  List.foldl_append

/-- The visits of a plan: in the order of the plan, each after visits that passed, and in the
state and with the value that these left; all of the plan, unless one fails. -/
structure Follows (subject : Subject τ) (plan : List (ι × Requirement)) (given : ι → Value)
    (state : τ) (visits : List (Visit ι τ)) : Prop where
  inOrder : visits.map Visit.task <+: plan
  inTurn : ∀ before m after, visits = before ++ m :: after →
    (∀ n ∈ before, n.Passed subject) ∧ m.value = valuesAfter subject given before m.target ∧
      m.state = stateAfter subject state before
  complete : (∀ m ∈ visits, m.Passed subject) → visits.map Visit.task = plan

namespace Follows

theorem nil : Follows subject [] given state ([] : List (Visit ι τ)) :=
  ⟨List.prefix_rfl, fun before m after h => by simp at h, fun _ => rfl⟩

/-- A visit that fails is the last. -/
theorem failed (hv : m.value = given m.target) (hs : m.state = state)
    (hf : ¬ m.Passed subject) : Follows subject (m.task :: plan) given state [m] := by
  refine ⟨⟨plan, rfl⟩, ?_, ?_⟩
  · intro before n after h
    cases before with
    | nil =>
      cases h
      exact ⟨List.forall_mem_nil _, hv, hs⟩
    | cons b before => simp at h
  · intro hall
    exact absurd (hall m List.mem_cons_self) hf

/-- After a visit that passes the rest of the plan is followed from where it ended. -/
theorem cons (hv : m.value = given m.target) (hs : m.state = state) (hp : m.Passed subject)
    (h : Follows subject plan (Function.update given m.target (m.run subject).result.value)
      (m.run subject).state visits) :
    Follows subject (m.task :: plan) given state (m :: visits) := by
  refine ⟨?_, ?_, ?_⟩
  · rw [List.map_cons]
    exact (List.prefix_cons_inj m.task).2 h.inOrder
  · intro before n after hsplit
    cases before with
    | nil =>
      cases hsplit
      exact ⟨List.forall_mem_nil _, hv, hs⟩
    | cons b before =>
      rw [List.cons_append, List.cons.injEq] at hsplit
      obtain ⟨rfl, hsplit⟩ := hsplit
      obtain ⟨hpass, hvalue, hstate⟩ := h.inTurn before n after hsplit
      exact ⟨List.forall_mem_cons.2 ⟨hp, hpass⟩, hvalue, hstate⟩
  · intro hall
    rw [List.map_cons, h.complete fun n hn => hall n (List.mem_cons_of_mem m hn)]

/-- The visits after one that passes follow the rest of the plan. -/
theorem tail {t : ι × Requirement} (h : Follows subject (t :: plan) given state (m :: visits))
    (hp : m.Passed subject) :
    Follows subject plan (Function.update given m.target (m.run subject).result.value)
      (m.run subject).state visits := by
  have horder := h.inOrder
  rw [List.map_cons, List.cons_prefix_cons] at horder
  refine ⟨horder.2, ?_, ?_⟩
  · intro before n after hsplit
    obtain ⟨hpass, hvalue, hstate⟩ := h.inTurn (m :: before) n after (by rw [hsplit]; rfl)
    exact ⟨fun k hk => hpass k (List.mem_cons_of_mem m hk), hvalue, hstate⟩
  · intro hall
    have hplan := h.complete (List.forall_mem_cons.2 ⟨hp, hall⟩)
    rw [List.map_cons, List.cons.injEq] at hplan
    exact hplan.2

/-- Nothing is visited after a visit that fails. -/
theorem eq_nil_of_failed (h : Follows subject plan given state (m :: visits))
    (hf : ¬ m.Passed subject) : visits = [] := by
  cases visits with
  | nil => rfl
  | cons n visits =>
    have hp := (h.inTurn [m] n visits rfl).1 m (List.mem_singleton_self m)
    exact absurd hp hf

/-- The first visit is to the first target of the plan, with what was given. -/
theorem head {t : ι × Requirement} (h : Follows subject (t :: plan) given state visits) :
    ∃ later, visits = ⟨t.1, t.2, given t.1, state⟩ :: later := by
  cases visits with
  | nil => cases h.complete (List.forall_mem_nil _)
  | cons m visits =>
    obtain ⟨-, hv, hs⟩ := h.inTurn [] m visits rfl
    obtain ⟨rest, hrest⟩ := h.inOrder
    obtain ⟨target, requirement, value, state'⟩ := m
    obtain rfl : (target, requirement) = t := (List.cons.inj hrest).1
    obtain rfl : value = given target := hv
    obtain rfl : state' = state := hs
    exact ⟨visits, rfl⟩

/-- **A plan is followed in one way only.** -/
theorem unique {visits' : List (Visit ι τ)} (h : Follows subject plan given state visits)
    (h' : Follows subject plan given state visits') : visits = visits' := by
  induction plan generalizing given state visits visits' with
  | nil =>
    have hnil := List.prefix_nil.1 h.inOrder
    have hnil' := List.prefix_nil.1 h'.inOrder
    exact (List.map_eq_nil_iff.1 hnil).trans (List.map_eq_nil_iff.1 hnil').symm
  | cons t plan ih =>
    obtain ⟨later, rfl⟩ := h.head
    obtain ⟨later', rfl⟩ := h'.head
    congr 1
    by_cases hp : Visit.Passed subject ⟨t.1, t.2, given t.1, state⟩
    · exact ih (h.tail hp) (h'.tail hp)
    · rw [h.eq_nil_of_failed hp, h'.eq_nil_of_failed hp]

end Follows

/-- The visits to one target, by the requirements on it: what they ask, where they end, and how
visits of the rest of a plan are appended to them. -/
structure Covers (subject : Subject τ) (target : ι) (rs : List Requirement) (given : ι → Value)
    (state : τ) (run : Run τ (Checked Value)) (visits : List (Visit ι τ)) : Prop where
  calls_eq : calls run.effects = asked subject visits
  state_eq : stateAfter subject state visits = run.state
  values_eq : valuesAfter subject given visits =
    Function.update given target run.result.value
  of_error : ∀ e, run.result.verdict = .error e →
    (∃ m ∈ visits, (m.run subject).result.verdict = .error e) ∧
    ∀ plan, Follows subject (rs.map (target, ·) ++ plan) given state visits
  of_ok : run.result.verdict = .ok () → (∀ m ∈ visits, m.Passed subject) ∧
    ∀ plan later, Follows subject plan (Function.update given target run.result.value) run.state
      later → Follows subject (rs.map (target, ·) ++ plan) given state (visits ++ later)

namespace Covers

variable {target : ι} {r : Requirement} {rs : List Requirement} {v : Value} {e : GuardError}
  {method : String}

theorem nil (hg : given target = v) :
    Covers subject target [] given state ⟨⟨.ok (), v⟩, [], state⟩ [] := by
  have hupd : Function.update given target v = given := by rw [← hg, Function.update_eq_self]
  refine ⟨rfl, rfl, hupd.symm, ?_, ?_⟩
  · intro e h
    cases h
  · intro _
    refine ⟨List.forall_mem_nil _, ?_⟩
    intro plan later h
    dsimp only at h
    rw [hupd] at h
    exact h

/-- The first requirement fails: there is one visit, and the failure is logged after it. -/
theorem failed (hm : m.task = (target, r)) (hv : m.value = given target) (hs : m.state = state)
    (he : (m.run subject).result.verdict = .error e) (event : GuardEvent) :
    Covers subject target (r :: rs) given state
      { m.run subject with effects := (m.run subject).effects ++ [.logged event] } [m] := by
  obtain ⟨rfl, rfl⟩ := Prod.mk.inj hm
  have hf : ¬ m.Passed subject := by
    intro hp
    rw [Visit.Passed, he] at hp
    cases hp
  refine ⟨?_, rfl, rfl, ?_, ?_⟩
  · have hlogged : calls [Effect.logged event] = [] := rfl
    have hasked : asked subject [m] = m.questions subject := List.append_nil _
    rw [calls_append, hlogged, List.append_nil, hasked]
    rfl
  · intro e' he'
    exact ⟨⟨m, List.mem_singleton_self m, he'⟩, fun plan => .failed hv hs hf⟩
  · intro h
    dsimp only at h
    rw [he] at h
    cases h

/-- The first requirement passes: the visits to the others come after it. -/
theorem cons (hm : m.task = (target, r)) (hv : m.value = given target) (hs : m.state = state)
    (hp : m.Passed subject) {run : Run τ (Checked Value)}
    (h : Covers subject target rs
      (Function.update given target (m.run subject).result.value) (m.run subject).state run
      visits) :
    Covers subject target (r :: rs) given state
      { run with effects := (m.run subject).effects ++ run.effects } (m :: visits) := by
  obtain ⟨rfl, rfl⟩ := Prod.mk.inj hm
  refine ⟨?_, h.state_eq, ?_, ?_, ?_⟩
  · dsimp only
    rw [calls_append, h.calls_eq]
    rfl
  · have hvalues := h.values_eq
    rw [Function.update_idem] at hvalues
    exact hvalues
  · intro e he
    obtain ⟨⟨n, hn, hf⟩, hfollows⟩ := h.of_error e he
    exact ⟨⟨n, List.mem_cons_of_mem m hn, hf⟩, fun plan => .cons hv hs hp (hfollows plan)⟩
  · intro hok
    obtain ⟨hall, hfollows⟩ := h.of_ok hok
    rw [List.forall_mem_cons]
    refine ⟨⟨hp, hall⟩, ?_⟩
    intro plan later hlater
    -- later visits see one change of the target, not two
    refine .cons hv hs hp (hfollows plan later ?_)
    rw [Function.update_idem]
    exact hlater

end Covers

/-- With nothing to come after them the visits follow the requirements. -/
theorem Covers.follows {target : ι} {rs : List Requirement} {run : Run τ (Checked Value)}
    (h : Covers subject target rs given state run visits) :
    Follows subject (rs.map (target, ·)) given state visits := by
  cases hv : run.result.verdict with
  | error e =>
    have hfollows := (h.of_error e hv).2 []
    rw [List.append_nil] at hfollows
    exact hfollows
  | ok _ =>
    have hfollows := (h.of_ok hv).2 [] [] .nil
    rw [List.append_nil, List.append_nil] at hfollows
    exact hfollows

/-- **Requirements in turn are visits in turn.** -/
theorem exists_covers (subject : Subject τ) (method : String) (target : ι)
    (rs : List Requirement) (v : Value) (given : ι → Value) (hg : given target = v) (state : τ) :
    ∃ visits, Covers subject target rs given state (check subject method rs v state) visits := by
  -- each requirement finds the value, the targets and the state as the one before left them
  induction rs generalizing v given state with
  | nil => exact ⟨[], .nil hg⟩
  | cons r rs ih =>
    let m : Visit ι τ := ⟨target, r, v, state⟩
    cases hv : (m.run subject).result.verdict with
    | error e =>
      rw [check_cons_of_error hv]
      exact ⟨[m], .failed rfl hg.symm rfl hv _⟩
    | ok _ =>
      rw [check_cons_of_ok hv]
      obtain ⟨visits, hc⟩ := ih (m.run subject).result.value
        (Function.update given target (m.run subject).result.value)
        (Function.update_self ..) (m.run subject).state
      exact ⟨m :: visits, .cons rfl hg.symm rfl hv hc⟩

end AccessGuard
