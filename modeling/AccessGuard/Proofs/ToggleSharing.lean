import AccessGuard.Proofs.Carrying
import AccessGuard.Proofs.Mediation
import AccessGuard.Session
import Mathlib.Data.List.Induction

/-!
# Handles that share a flag

A guard and its copies hold toggles of one flag. Whether an outer toggle is a toggle of the same
flag is settled when the guard is built: a guard around that toggle shares its flag, a guard made
from a configuration has a flag of its own. In a session of any steps a flag is what was written
last through one of its handles.

Subjects and operations are taken to set no flag. One that does makes, in the middle of a step,
what would be a further step of the session.

* `Session.isOn_step`: what one step makes of a flag.
* `Session.isOn_after`: what a session makes of a flag.
* `Session.Governed`: the flags that a session is at, and what its next step does.
* `Session.governed_after`: a session is at what was written last.
-/

namespace AccessGuard

variable {σ ε : Type}

/-! ## What is written -/

/-- The handles through which a session may write a flag. -/
inductive Writer where
  | actor (a : Actor)
  | outer
deriving DecidableEq

namespace SessionStep

/-- The value that a step writes, and through which handle. -/
def write? : SessionStep σ ε → Option (Writer × Bool)
  | reload a config => some (.actor a, config.isEnabled)
  | toggle a on => some (.actor a, on)
  | outerToggle on => some (.outer, on)
  | check .. | invoke .. => none

/-- The subject of the step sets no flag, and neither does its operation, if it has them. -/
def Quiet : SessionStep σ ε → Prop
  | check _ _ _ _ subject => subject.SetsNoFlag
  | invoke _ _ _ operation subject => subject.SetsNoFlag ∧ operation.SetsNoFlag
  | reload .. | toggle .. | outerToggle _ => True

end SessionStep

/-- The value that was written last through one of some handles; the initial one if there was
none. -/
def lastWritten (through : Writer → Bool) (initial : Bool) (steps : List (SessionStep σ ε)) :
    Bool :=
  (((steps.filterMap SessionStep.write?).filter fun w => through w.1).getLast?.map (·.2)).getD
    initial

section LastWritten

variable {through : Writer → Bool} {initial : Bool} {steps : List (SessionStep σ ε)}
  {step : SessionStep σ ε}

theorem lastWritten_concat_of_none (h : step.write? = none) :
    lastWritten through initial (steps ++ [step]) = lastWritten through initial steps := by
  unfold lastWritten
  rw [List.filterMap_append, List.filterMap_cons_none h, List.filterMap_nil, List.append_nil]

theorem lastWritten_concat_of_some {w : Writer} {on : Bool} (h : step.write? = some (w, on)) :
    lastWritten through initial (steps ++ [step]) =
      if through w then on else lastWritten through initial steps := by
  unfold lastWritten
  rw [List.filterMap_append, List.filterMap_cons_some h, List.filterMap_nil, List.filter_append]
  by_cases hw : through w = true <;> simp [hw]

end LastWritten

/-! ## One step -/

namespace Session

variable {s : Session σ} {step : SessionStep σ ε} {t : Toggle}

/-- The toggle behind a handle. -/
def toggleOf (s : Session σ) : Writer → Toggle
  | .actor a => (s.actor a).toggle
  | .outer => s.outer

/-- Every handle has a flag. -/
def Owning (s : Session σ) : Prop := ∀ w, s.world.switches.Owns (s.toggleOf w)

theorem step_handles (s : Session σ) (step : SessionStep σ ε) :
    (s.step step).2.2.guard = s.guard ∧ (s.step step).2.2.twin = s.twin ∧
      (s.step step).2.2.outer = s.outer := by
  cases step <;> exact ⟨rfl, rfl, rfl⟩

theorem toggleOf_step (s : Session σ) (step : SessionStep σ ε) (w : Writer) :
    (s.step step).2.2.toggleOf w = s.toggleOf w := by
  obtain ⟨hguard, htwin, houter⟩ := s.step_handles step
  cases w with
  | actor a =>
    cases a with
    | guard => exact congrArg Guard.toggle hguard
    | twin => exact congrArg Guard.toggle htwin
  | outer => exact houter

/-- **What a step makes of the flags**: it sets the one behind the handle that it writes through,
if it writes at all. -/
theorem switches_step (hquiet : step.Quiet) :
    (s.step step).2.2.world.switches = match step.write? with
      | some (w, on) => s.world.switches.set (s.toggleOf w) on
      | none => s.world.switches := by
  cases step with
  | reload | toggle | outerToggle => rfl
  | check a method slot v subject => exact hquiet.check_switches method _ v s.world
  | invoke a method arguments operation subject =>
    exact hquiet.1.invoke_switches hquiet.2 (s.actor a) method arguments s.world

theorem isOn_step (howning : s.Owning) (hquiet : step.Quiet) :
    (s.step step).2.2.world.switches.isOn t = match step.write? with
      | some (w, on) => if t = s.toggleOf w then on else s.world.switches.isOn t
      | none => s.world.switches.isOn t := by
  rw [switches_step hquiet]
  split
  · exact Switchboard.isOn_set (howning _)
  · rfl

theorem owning_step (howning : s.Owning) (hquiet : step.Quiet) :
    (s.step step).2.2.Owning := by
  intro w
  rw [toggleOf_step, switches_step hquiet]
  split
  · -- setting a flag does not change how many there are
    have hlength : (s.toggleOf w).index < s.world.switches.flags.length := howning w
    unfold Switchboard.Owns Switchboard.set
    rw [List.length_set]
    exact hlength
  · exact howning w

/-! ## Sessions -/

/-- A session after some steps. -/
def after (s : Session σ) (steps : List (SessionStep σ ε)) : Session σ :=
  steps.foldl (fun s step => (s.step step).2.2) s

theorem after_concat (s : Session σ) (steps : List (SessionStep σ ε)) (step : SessionStep σ ε) :
    s.after (steps ++ [step]) = ((s.after steps).step step).2.2 := by
  unfold after
  rw [List.foldl_append, List.foldl_cons, List.foldl_nil]

/-- Whatever the steps do, the handles stay what they are. -/
theorem after_handles (s : Session σ) (steps : List (SessionStep σ ε)) :
    (s.after steps).guard = s.guard ∧ (s.after steps).twin = s.twin ∧
      (s.after steps).outer = s.outer := by
  induction steps using List.reverseRecOn with
  | nil => exact ⟨rfl, rfl, rfl⟩
  | append_singleton steps step ih =>
    rw [after_concat]
    obtain ⟨hguard, htwin, houter⟩ := step_handles (s.after steps) step
    exact ⟨hguard.trans ih.1, htwin.trans ih.2.1, houter.trans ih.2.2⟩

theorem toggleOf_after (s : Session σ) (steps : List (SessionStep σ ε)) (w : Writer) :
    (s.after steps).toggleOf w = s.toggleOf w := by
  induction steps using List.reverseRecOn with
  | nil => rfl
  | append_singleton steps step ih => rw [after_concat, toggleOf_step, ih]

theorem owning_after (howning : s.Owning) {steps : List (SessionStep σ ε)}
    (hsteps : ∀ step ∈ steps, step.Quiet) : (s.after steps).Owning := by
  induction steps using List.reverseRecOn with
  | nil => exact howning
  | append_singleton steps step ih =>
    rw [List.forall_mem_append, List.forall_mem_singleton] at hsteps
    rw [after_concat]
    exact owning_step (ih hsteps.1) hsteps.2

/-- **What a session makes of a flag**: it is what was written last through one of its handles. -/
theorem isOn_after (howning : s.Owning) {steps : List (SessionStep σ ε)}
    (hsteps : ∀ step ∈ steps, step.Quiet) :
    (s.after steps).world.switches.isOn t =
      lastWritten (fun w => decide (t = s.toggleOf w)) (s.world.switches.isOn t) steps := by
  induction steps using List.reverseRecOn with
  | nil => rfl
  | append_singleton steps step ih =>
    rw [List.forall_mem_append, List.forall_mem_singleton] at hsteps
    rw [after_concat, isOn_step (owning_after howning hsteps.1) hsteps.2, ih hsteps.1]
    cases hw : step.write? with
    | none => rw [lastWritten_concat_of_none hw]
    | some write =>
      obtain ⟨w, on⟩ := write
      rw [lastWritten_concat_of_some hw]
      dsimp only
      rw [toggleOf_after]
      simp only [decide_eq_true_eq]

end Session

/-! ## Guards that share a flag or have one of their own -/

/-- The flag of a new guard is what its configuration says. -/
theorem Guard.isEnabled_new (registry : Registry) (config : SecurityConfig) (b : Switchboard) :
    (Guard.new registry config b).1.isEnabled (Guard.new registry config b).2.2 =
      config.isEnabled := by
  have htoggle : (Guard.new registry config b).1.toggle = ⟨b.flags.length⟩ := rfl
  have hboard : (Guard.new registry config b).2.2.flags = b.flags ++ [config.isEnabled] := rfl
  unfold Guard.isEnabled Switchboard.isOn
  rw [hboard, htoggle, List.getElem?_concat_length]
  rfl

namespace Session

/-- A session over a guard, its copy and an outer toggle that is there before them. The guard is
built around this toggle, or from a configuration. -/
def around (registry : Registry) (config : SecurityConfig) (outer : Toggle) (shared : Bool)
    (world : World σ) : Session σ :=
  if shared then
    let (guard, _) := Guard.withToggle registry outer world.switches
    ⟨guard, guard, outer, world⟩
  else
    let (guard, _, switches) := Guard.new registry config world.switches
    ⟨guard, guard, outer, { world with switches := switches }⟩

theorem start_eq_around (registry : Registry) (config : SecurityConfig) (shared : Bool) (own : σ) :
    (start registry config shared own).1 =
      around registry config ⟨0⟩ shared ⟨⟨[config.isEnabled]⟩, own⟩ := by
  cases shared <;> rfl

end Session

namespace Writer

/-- Does the guard see what is written through a handle? -/
def writesGuard (shared : Bool) : Writer → Bool
  | actor _ => true
  | outer => shared

/-- Does the outer toggle see what is written through a handle? -/
def writesOuter (shared : Bool) : Writer → Bool
  | actor _ => shared
  | outer => true

end Writer

namespace Session

variable {s : Session σ} {registry : Registry}

section Around

variable {config : SecurityConfig} {outer : Toggle} {shared : Bool} {world : World σ}

theorem around_guard (registry : Registry) (config : SecurityConfig) (outer : Toggle)
    (shared : Bool) (world : World σ) :
    (around registry config outer shared world).guard.registry = registry ∧
      (around registry config outer shared world).twin =
        (around registry config outer shared world).guard ∧
      (around registry config outer shared world).outer = outer := by
  cases shared <;> exact ⟨rfl, rfl, rfl⟩

/-- Behind the handles are two toggles, which may be one. -/
theorem toggleOf_around (w : Writer) :
    (around registry config outer shared world).toggleOf w = match w with
      | .actor _ => (around registry config outer shared world).guard.toggle
      | .outer => outer := by
  obtain ⟨-, htwin, houter⟩ := around_guard registry config outer shared world
  cases w with
  | actor a =>
    cases a with
    | guard => rfl
    | twin => exact congrArg Guard.toggle htwin
  | outer => exact houter

theorem owning_around (howned : world.switches.Owns outer) :
    (around registry config outer shared world).Owning := by
  have hindex : outer.index < world.switches.flags.length := howned
  intro w
  rw [toggleOf_around]
  cases shared with
  | true => cases w <;> exact howned
  | false =>
    -- the board has one flag more, which is that of the guard
    have hlength : (around registry config outer false world).world.switches.flags.length =
        world.switches.flags.length + 1 := List.length_append
    unfold Switchboard.Owns
    rw [hlength]
    cases w with
    | actor a => exact Nat.lt_succ_self _
    | outer => exact Nat.lt_succ_of_lt hindex

/-- A flag that the guard has of its own is none of those that were there before. -/
theorem outer_eq_toggle_iff (howned : world.switches.Owns outer) :
    outer = (around registry config outer shared world).guard.toggle ↔ shared = true := by
  have hindex : outer.index < world.switches.flags.length := howned
  cases shared with
  | true => exact iff_of_true rfl rfl
  | false =>
    refine iff_of_false ?_ Bool.false_ne_true
    intro heq
    have hnew : outer.index = world.switches.flags.length := congrArg Toggle.index heq
    omega

theorem writesGuard_eq (howned : world.switches.Owns outer) (w : Writer) :
    decide ((around registry config outer shared world).guard.toggle =
      (around registry config outer shared world).toggleOf w) = w.writesGuard shared := by
  rw [toggleOf_around, Bool.eq_iff_iff, decide_eq_true_iff]
  cases w with
  | actor a => exact iff_of_true rfl rfl
  | outer => exact eq_comm.trans (outer_eq_toggle_iff howned)

theorem writesOuter_eq (howned : world.switches.Owns outer) (w : Writer) :
    decide (outer = (around registry config outer shared world).toggleOf w) =
      w.writesOuter shared := by
  rw [toggleOf_around, Bool.eq_iff_iff, decide_eq_true_iff]
  cases w with
  | actor a => exact outer_eq_toggle_iff howned
  | outer => exact iff_of_true rfl rfl

theorem isOn_around (howned : world.switches.Owns outer) :
    (around registry config outer shared world).isEnabled =
        (if shared then world.switches.isOn outer else config.isEnabled) ∧
      (around registry config outer shared world).world.switches.isOn outer =
        world.switches.isOn outer := by
  have hindex : outer.index < world.switches.flags.length := howned
  cases shared with
  | true => exact ⟨rfl, rfl⟩
  | false =>
    have hboard : (around registry config outer false world).world.switches.flags =
        world.switches.flags ++ [config.isEnabled] := rfl
    refine ⟨Guard.isEnabled_new registry config world.switches, ?_⟩
    unfold Switchboard.isOn
    rw [hboard, List.getElem?_append_left hindex]

end Around

/-! ## What a session is at -/

/-- **An answer as with a guard that is built for it**: in the world of the session, around any
toggle of the same value; and from a configuration that says this value, on any board, if what
it runs knows no flag. -/
structure AsFresh {α : Type} (registry : Registry) (flag : Bool) (s : Session σ)
    (detached : Prop) (run : Guard → World σ → Run (World σ) α)
    (answer : α → StepAnswer ε) (answered : StepAnswer ε) (effects : List Effect) : Prop where
  here : ∀ t, s.world.switches.isOn t = flag →
    let fresh := (Guard.withToggle registry t s.world.switches).1
    answered = answer (run fresh s.world).result ∧ effects = (run fresh s.world).effects
  anywhere : detached → ∀ board config, config.isEnabled = flag →
    let (fresh, _, board') := Guard.new registry config board
    answered = answer (run fresh ⟨board', s.world.own⟩).result ∧
      effects = (run fresh ⟨board', s.world.own⟩).effects

/-- **A session at two flags**, that of the guard and that of the outer toggle: what the handles
report, and what the next step does, its operation if it has one with errors of a type. -/
structure Governed (ε : Type) (registry : Registry) (flag outerFlag : Bool) (s : Session σ) :
    Prop where
  guard : s.guard.isEnabled s.world.switches = flag
  twin : s.twin.isEnabled s.world.switches = flag
  outer : s.world.switches.isOn s.outer = outerFlag
  /-- Setting a flag answers what it was before. -/
  toggle : ∀ a on,
    let done := s.step (.toggle a on : SessionStep σ ε)
    done.1 = .previous flag ∧ done.2.1 = []
  outerToggle : ∀ on,
    let done := s.step (.outerToggle on : SessionStep σ ε)
    done.1 = .previous outerFlag ∧ done.2.1 = []
  /-- A configuration that says nothing switches on; only a change is reported. -/
  reload : ∀ a (config : SecurityConfig),
    let done := s.step (.reload a config : SessionStep σ ε)
    let enabled := config.authorizationEnabled.getD true
    done.2.2.isEnabled = enabled ∧
      done.2.1 = if flag = enabled then [] else [.logged (.toggled enabled)]
  /-- A check sets no flag, and answers as with a guard that is built for it. -/
  check : ∀ a method slot v (subject : Subject (World σ)),
    let done := s.step (.check a method slot v subject : SessionStep σ ε)
    let run (g : Guard) (w : World σ) :=
      AccessGuard.check subject method (g.requirements method slot) v w
    (subject.SetsNoFlag → done.2.2.world.switches = s.world.switches) ∧
      AsFresh registry flag s subject.Detached run .checked done.1 done.2.1
  /-- So does a call. -/
  invoke : ∀ a method arguments (operation : GuardedOperation (World σ) ε)
    (subject : Subject (World σ)),
    let done := s.step (.invoke a method arguments operation subject)
    let run (g : Guard) (w : World σ) := g.invoke subject method arguments operation w
    (subject.SetsNoFlag → operation.SetsNoFlag →
        done.2.2.world.switches = s.world.switches) ∧
      AsFresh registry flag s (subject.Detached ∧ operation.Detached) run .invoked done.1 done.2.1

theorem actor_eq (htwin : s.twin = s.guard) (a : Actor) : s.actor a = s.guard := by
  cases a with
  | guard => rfl
  | twin => exact htwin

/-- What is required shows of the guard its registry alone. -/
theorem requirements_congr {g h : Guard} (hregistry : g.registry = h.registry) (method : String)
    (slot : Slot) : g.requirements method slot = h.requirements method slot := by
  unfold Guard.requirements
  rw [hregistry]

theorem reload_done (howning : s.Owning) (htwin : s.twin = s.guard) (a : Actor)
    (config : SecurityConfig) :
    let done := s.step (.reload a config : SessionStep σ ε)
    done.2.2.isEnabled = config.isEnabled ∧ done.2.1 =
      if s.isEnabled = config.isEnabled then [] else [.logged (.toggled config.isEnabled)] := by
  intro done
  have ha : s.actor a = s.guard := actor_eq htwin a
  have howned : s.world.switches.Owns s.guard.toggle := howning (.actor .guard)
  refine ⟨?_, ?_⟩
  · have hset : done.2.2.isEnabled =
        (s.world.switches.set (s.actor a).toggle config.isEnabled).isOn s.guard.toggle := rfl
    rw [hset, ha, Switchboard.isOn_set howned, if_pos rfl]
  · have hevent : done.2.1 =
        ((s.actor a).reload config s.world.switches).1.toList.map .logged := rfl
    rw [hevent, ha]
    unfold Guard.reload isEnabled
    dsimp only
    split <;> rfl

theorem check_asFresh (hregistry : s.guard.registry = registry) (htwin : s.twin = s.guard)
    (a : Actor) (method : String) (slot : Slot) (v : Value) (subject : Subject (World σ)) :
    let done := s.step (.check a method slot v subject : SessionStep σ ε)
    AsFresh registry s.isEnabled s subject.Detached
      (fun g w => AccessGuard.check subject method (g.requirements method slot) v w) .checked
      done.1 done.2.1 := by
  have hrequired (g : Guard) (hg : g.registry = registry) :
      (s.actor a).requirements method slot = g.requirements method slot :=
    requirements_congr (by rw [actor_eq htwin a, hregistry, hg]) method slot
  constructor
  · intro t _ fresh
    rw [← hrequired fresh rfl]
    exact ⟨rfl, rfl⟩
  · intro hdetached board config _
    obtain ⟨hresult, heffects⟩ := hdetached.check_boards method
      ((s.actor a).requirements method slot) v s.world.own s.world.switches
      (Guard.new registry config board).2.2
    dsimp only
    rw [← hrequired (Guard.new registry config board).1 rfl]
    exact ⟨congrArg StepAnswer.checked hresult, heffects⟩

theorem invoke_asFresh (hregistry : s.guard.registry = registry) (htwin : s.twin = s.guard)
    (a : Actor) (method : String) (arguments : Arguments)
    (operation : GuardedOperation (World σ) ε) (subject : Subject (World σ)) :
    let done := s.step (.invoke a method arguments operation subject)
    AsFresh registry s.isEnabled s (subject.Detached ∧ operation.Detached)
      (fun g w => g.invoke subject method arguments operation w) .invoked done.1 done.2.1 := by
  have ha : s.actor a = s.guard := actor_eq htwin a
  constructor
  · intro t ht fresh
    have hrun : (s.actor a).invoke subject method arguments operation s.world =
        fresh.invoke subject method arguments operation s.world := by
      have hon : fresh.isEnabled s.world.switches = s.guard.isEnabled s.world.switches := ht
      rw [Guard.invoke_eq_invokeOn, Guard.invoke_eq_invokeOn, ha, hon, hregistry]
      rfl
    rw [step, hrun]
    exact ⟨rfl, rfl⟩
  · rintro ⟨hsubject, hoperation⟩ board config hconfig
    have hon : (s.actor a).isEnabled s.world.switches =
        (Guard.new registry config board).1.isEnabled (Guard.new registry config board).2.2 := by
      rw [Guard.isEnabled_new, hconfig, ha]
      rfl
    obtain ⟨hresult, heffects⟩ := hsubject.invoke_boards hoperation
      (k := (Guard.new registry config board).1) (by rw [ha]; exact hregistry) hon method
      arguments s.world.own
    exact ⟨congrArg StepAnswer.invoked hresult, heffects⟩

/-- **One flag governs a guard and its copy.** -/
theorem governed (hregistry : s.guard.registry = registry) (htwin : s.twin = s.guard)
    (howning : s.Owning) :
    s.Governed ε registry s.isEnabled (s.world.switches.isOn s.outer) where
  guard := rfl
  twin := by rw [htwin]; rfl
  outer := rfl
  toggle := by
    intro a on
    have hprevious : (s.step (.toggle a on : SessionStep σ ε)).1 =
        .previous (s.world.switches.isOn (s.actor a).toggle) := rfl
    dsimp only
    rw [hprevious, actor_eq htwin a]
    exact ⟨rfl, rfl⟩
  outerToggle := fun _ => ⟨rfl, rfl⟩
  reload := fun a config => reload_done howning htwin a config
  check := fun a method slot v subject =>
    ⟨fun hquiet => hquiet.check_switches method _ v s.world,
      check_asFresh hregistry htwin a method slot v subject⟩
  invoke := fun a method arguments operation subject =>
    ⟨fun hquiet hop => hquiet.invoke_switches hop (s.actor a) method arguments s.world,
      invoke_asFresh hregistry htwin a method arguments operation subject⟩

/-- **Sessions over a guard, its copy and an outer toggle.** The copies report the same flag after
any steps. Where subjects and operations set no flag, it is what was written last through one of
the copies, or through the outer toggle if the guard was built around it; the initial one, if
nothing was written. The outer toggle reports what was written last through it, or through a copy
if the guard was built around it: otherwise neither sees the other. -/
theorem governed_after (registry : Registry) (config : SecurityConfig) (outer : Toggle)
    (shared : Bool) (world : World σ) (howned : world.switches.Owns outer) :
    let s := around registry config outer shared world
    let initial := if shared then world.switches.isOn outer else config.isEnabled
    (∀ steps : List (SessionStep σ ε),
      (s.after steps).twin.isEnabled (s.after steps).world.switches =
        (s.after steps).guard.isEnabled (s.after steps).world.switches) ∧
    ∀ steps : List (SessionStep σ ε), (∀ step ∈ steps, step.Quiet) →
      (s.after steps).Governed ε registry
        (lastWritten (Writer.writesGuard shared) initial steps)
        (lastWritten (Writer.writesOuter shared) (world.switches.isOn outer) steps) := by
  intro s initial
  obtain ⟨hregistry, htwin, houter⟩ : s.guard.registry = registry ∧ s.twin = s.guard ∧
    s.outer = outer := around_guard registry config outer shared world
  have howning : s.Owning := owning_around howned
  obtain ⟨hinitial, houterInitial⟩ : s.isEnabled = initial ∧
    s.world.switches.isOn outer = world.switches.isOn outer := isOn_around howned
  have htwins (steps : List (SessionStep σ ε)) : (s.after steps).twin = (s.after steps).guard := by
    obtain ⟨hg, ht, -⟩ := s.after_handles steps
    rw [hg, ht, htwin]
  refine ⟨fun steps => by rw [htwins], ?_⟩
  intro steps hsteps
  obtain ⟨hg, -, ho⟩ := s.after_handles steps
  have hflag : (s.after steps).isEnabled =
      lastWritten (Writer.writesGuard shared) initial steps := by
    have hthrough : (fun w => decide (s.guard.toggle = s.toggleOf w)) =
        Writer.writesGuard shared := funext (writesGuard_eq howned)
    unfold isEnabled Guard.isEnabled
    rw [hg, isOn_after howning hsteps, hthrough, ← hinitial]
    rfl
  have houterFlag : (s.after steps).world.switches.isOn (s.after steps).outer =
      lastWritten (Writer.writesOuter shared) (world.switches.isOn outer) steps := by
    have hthrough : (fun w => decide (outer = s.toggleOf w)) = Writer.writesOuter shared :=
      funext (writesOuter_eq howned)
    rw [ho, houter, isOn_after howning hsteps, hthrough, houterInitial]
  rw [← hflag, ← houterFlag]
  exact governed (by rw [hg]; exact hregistry) (htwins steps) (owning_after howning hsteps)

end Session

/-- A principal knows no flag. -/
theorem PrincipalSubject.detached (s : PrincipalSubject) :
    (s.toSubject : Subject (World σ)).Detached := by
  refine ⟨s.toSubject, fun b => ⟨fun _ _ _ => rfl, fun p cs a => ?_⟩⟩
  have hcases : s.narrow p cs (World.mk b a) = (s.narrow p cs a).map (World.mk b) := by
    unfold narrow
    split <;> rfl
  exact hcases

/-- An operation that follows a script knows no flag. -/
theorem scripted_detached (script : List Instruction) :
    (scripted script : GuardedOperation (World σ) String).Detached :=
  ⟨scripted script, fun _ _ _ => rfl⟩

namespace Sample

/-- Counts its runs. -/
def count : GuardedOperation (World Nat) String := fun arguments world =>
  ⟨.ok none, arguments, { world with own := world.own + 1 }⟩

/-- The outer toggle is switched off, a check and a call are made, and the copy reloads a
configuration that switches off. Once the guard is switched on a further call is made. -/
def steps : List (SessionStep Nat String) :=
  let subject : Subject (World Nat) := (PrincipalSubject.of viewer .empty).toSubject
  [.outerToggle false, .check .guard "cases.list" .result (case "north") subject,
    .invoke .twin "cases.list" arguments (scripted [.returnArgument 0]) subject,
    .reload .twin .disabled, .toggle .guard true,
    .invoke .guard "cases.list" arguments count subject]

theorem quiet_of_mem_steps : ∀ step ∈ steps, step.Quiet := by
  have hsubject := (PrincipalSubject.detached (σ := Nat) (.of viewer .empty)).setsNoFlag
  have hscript := (scripted_detached (σ := Nat) [.returnArgument 0]).setsNoFlag
  have hcount : count.SetsNoFlag := fun _ _ => rfl
  unfold steps
  simp only [List.forall_mem_cons]
  exact ⟨trivial, hsubject, ⟨hsubject, hscript⟩, trivial, trivial, ⟨hsubject, hcount⟩,
    List.forall_mem_nil _⟩

end Sample

/-- A guard of its own does not see the outer toggle switched off; one that shares its flag does,
until the copy writes another value. -/
theorem Session.governed_after_sample :
    let config := SecurityConfig.unset
    let apart := (Session.start Sample.guard.registry config false 0).1
    let sharing := (Session.start Sample.guard.registry config true 0).1
    let before := Sample.steps.take 3
    (⟨[true]⟩ : Switchboard).Owns ⟨0⟩ ∧ (∀ step ∈ Sample.steps, step.Quiet) ∧
    (apart.after before).Governed String Sample.guard.registry true false ∧
    (sharing.after before).Governed String Sample.guard.registry false false ∧
    (sharing.after Sample.steps).Governed String Sample.guard.registry true true ∧
    (sharing.after Sample.steps).world.own = 1 := by
  intro config apart sharing before
  have happart : apart = around Sample.guard.registry config ⟨0⟩ false ⟨⟨[true]⟩, 0⟩ :=
    start_eq_around ..
  have hsharing : sharing = around Sample.guard.registry config ⟨0⟩ true ⟨⟨[true]⟩, 0⟩ :=
    start_eq_around ..
  have howned : (⟨[true]⟩ : Switchboard).Owns ⟨0⟩ := Nat.zero_lt_one
  have hbefore : ∀ step ∈ before, step.Quiet := fun step hstep =>
    Sample.quiet_of_mem_steps step (List.mem_of_mem_take hstep)
  have hgoverned (shared : Bool) := (governed_after (ε := String) Sample.guard.registry config ⟨0⟩
    shared (⟨⟨[true]⟩, 0⟩ : World Nat) howned).2
  have hcounted : (sharing.after Sample.steps).world.own = 1 := rfl
  rw [hsharing] at hcounted
  rw [happart, hsharing]
  exact ⟨howned, Sample.quiet_of_mem_steps, hgoverned false before hbefore,
    hgoverned true before hbefore, hgoverned true Sample.steps Sample.quiet_of_mem_steps, hcounted⟩

end AccessGuard
