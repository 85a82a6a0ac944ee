import AccessGuard.Evaluation
import AccessGuard.Proofs.Leaves

/-!
# Flattening early or late

Whether nested lists are opened before a step or after it does not show in an evaluation, which
opens them in the end. What a step makes of a list is made leaf by leaf: a field is taken from every
leaf, in the same order and with the same first failure. It may lead to lists again, so the results
differ, but they agree once they are opened.

* `map_leaves_project`: a field of a value and the field of each of its leaves.
* `Step.applyAll_opened`: steps from a value and from its opened form.
* `applyAll_flattenAt`: steps with one more flattening among them.
* `Selector.evaluate_flattenAt`: the evaluation of a selector with one more flattening.
-/

namespace AccessGuard

namespace Value

/-- A list of its leaves in place of a list; any other value is as it is. -/
def opened : Value → Value
  | list items => list (leavesOf items)
  | v => v

variable {v : Value} {vs ws : List Value} {name : String}

theorem opened_of_not_list (h : v.isList = false) : v.opened = v := by
  cases v <;> first | rfl | cases h

/-- The leaves of leaves are the leaves. -/
theorem leavesOf_leaves (v : Value) : leavesOf v.leaves = v.leaves := by
  rw [leavesOf_eq_flatMap]
  calc v.leaves.flatMap leaves
      = v.leaves.flatMap fun leaf => [leaf] :=
        List.flatMap_congr fun leaf h => leaves_of_not_list (isList_of_mem_leaves h)
    _ = v.leaves := List.flatMap_singleton' _

/-- **Opening a value keeps its leaves.** -/
@[simp] theorem leaves_opened (v : Value) : v.opened.leaves = v.leaves := by
  cases v with
  | list items => exact leavesOf_leaves (list items)
  | _ => rfl

@[simp] theorem opened_opened (v : Value) : v.opened.opened = v.opened := by
  cases v with
  | list items => exact congrArg list (leavesOf_leaves (list items))
  | _ => rfl

/-! ## A field, leaf by leaf -/

theorem map_leavesOf_projectAll_cons :
    (projectAll name (v :: vs)).map leavesOf =
      ((v.project name).map leaves).bind fun ls =>
        ((projectAll name vs).map leavesOf).map (ls ++ ·) := by
  rw [projectAll]
  cases v.project name with
  | error fault => rfl
  | ok w => cases projectAll name vs <;> rfl

theorem map_leavesOf_projectAll_append :
    (projectAll name (vs ++ ws)).map leavesOf =
      ((projectAll name vs).map leavesOf).bind fun ls =>
        ((projectAll name ws).map leavesOf).map (ls ++ ·) := by
  induction vs with
  | nil => cases h : projectAll name ws <;> simp [projectAll, h, Except.bind, Except.map, leavesOf]
  | cons v vs ih =>
    rw [List.cons_append, map_leavesOf_projectAll_cons, map_leavesOf_projectAll_cons, ih]
    -- the first failure decides on both sides, and without one the leaves are appended
    cases v.project name with
    | error fault => rfl
    | ok w =>
      cases projectAll name vs with
      | error fault => rfl
      | ok us =>
        cases projectAll name ws with
        | error fault => rfl
        | ok ts => exact congrArg Except.ok (List.append_assoc _ _ _).symm

mutual

/-- **A field is taken leaf by leaf**: its leaves are those of the field of every leaf, and it fails
as the first leaf without it does. -/
theorem map_leaves_project (name : String) :
    ∀ v : Value, (v.project name).map leaves = (projectAll name v.leaves).map leavesOf
  | list items => by
    rw [leaves, ← map_leavesOf_projectAll name items, project]
    cases projectAll name items <;> rfl
  | null | bool _ | int _ | decimal _ | str _ => rfl
  | record fields => by
    -- its only leaf is the record itself, though its field may be a list
    rw [leaves_of_not_list rfl, map_leavesOf_projectAll_cons]
    cases (record fields).project name with
    | error fault => rfl
    | ok w => exact congrArg Except.ok (List.append_nil _).symm

theorem map_leavesOf_projectAll (name : String) : ∀ vs : List Value,
    (projectAll name vs).map leavesOf = (projectAll name (leavesOf vs)).map leavesOf
  | [] => rfl
  | v :: vs => by
    rw [leavesOf, map_leavesOf_projectAll_cons, map_leavesOf_projectAll_append,
      map_leaves_project name v, map_leavesOf_projectAll name vs]

end

/-- The field of an opened list leads to the same value once that is opened. -/
theorem project_opened (name : String) (v : Value) :
    (v.opened.project name).map opened = (v.project name).map opened := by
  -- of a list only the leaves of the fields count
  have hlist (items : List Value) : ((list items).project name).map opened =
      ((projectAll name items).map leavesOf).map list := by
    rw [project]
    cases projectAll name items <;> rfl
  cases v with
  | list items => rw [opened, hlist, hlist, ← map_leavesOf_projectAll]
  | _ => rfl

end Value

namespace Step

/-! ## Steps from opened values -/

/-- **One step**: whether a list was opened before it, the result is the same once it is opened. -/
theorem apply_opened (step : Step) (v : Value) :
    (step.apply v.opened).map Value.opened = (step.apply v).map Value.opened := by
  rcases v.list_cases with ⟨items, rfl⟩ | hlist
  · cases step with
    | field name => exact Value.project_opened name (.list items)
    | spread name => exact Value.project_opened name (.list items)
    | flatten =>
      have hagain := (Value.list items).opened_opened
      exact congrArg (fun w => Except.ok w.opened) hagain
  · rw [Value.opened_of_not_list hlist]

/-- **All steps**: whether a list was opened before them, the result is the same once it is
opened. -/
theorem applyAll_opened (steps : List Step) (v : Value) :
    (applyAll steps v.opened).map Value.opened = (applyAll steps v).map Value.opened := by
  induction steps generalizing v with
  | nil => exact congrArg Except.ok v.opened_opened
  | cons step steps ih =>
    have hstep := step.apply_opened v
    rw [applyAll, applyAll]
    -- the step fails in both or in neither, since it does so once its results are opened
    rcases hu : step.apply v.opened with fault | u <;>
      rcases hw : step.apply v with fault' | w <;> rw [hu, hw] at hstep
    · exact hstep
    · cases hstep
    · cases hstep
    · have hopened : u.opened = w.opened := Except.ok.inj hstep
      calc (applyAll steps u).map Value.opened
          = (applyAll steps u.opened).map Value.opened := (ih u).symm
        _ = (applyAll steps w.opened).map Value.opened := by rw [hopened]
        _ = (applyAll steps w).map Value.opened := ih w

theorem map_leaves_applyAll_opened (steps : List Step) (v : Value) :
    (applyAll steps v.opened).map Value.leaves = (applyAll steps v).map Value.leaves := by
  -- results that are the same once they are opened have the same leaves
  have hleaves (x : Except StepFault Value) :
      x.map Value.leaves = (x.map Value.opened).map Value.leaves := by
    cases x with
    | error fault => rfl
    | ok w => exact congrArg Except.ok w.leaves_opened.symm
  rw [hleaves, applyAll_opened, ← hleaves]

theorem applyAll_append (before after : List Step) (v : Value) :
    applyAll (before ++ after) v = (applyAll before v).bind (applyAll after) := by
  induction before generalizing v with
  | nil => rfl
  | cons step before ih =>
    rw [List.cons_append, applyAll, applyAll]
    cases step.apply v with
    | error fault => rfl
    | ok w => exact ih w

theorem apply_flatten (v : Value) :
    flatten.apply v = if v.isList then .ok v.opened else .error (.wrongShape .flatten v.kind) := by
  cases v <;> rfl

/-- **Steps with a flattening among them**: it takes a list to get past it, and then the leaves are
those without it, or the fault is. -/
theorem map_leaves_applyAll_flatten (before after : List Step) (v : Value) :
    (applyAll (before ++ flatten :: after) v).map Value.leaves =
      (applyAll before v).bind fun u =>
        if u.isList then (applyAll after u).map Value.leaves
        else .error (.wrongShape .flatten u.kind) := by
  rw [applyAll_append]
  cases applyAll before v with
  | error fault => rfl
  | ok u =>
    dsimp only [Except.bind]
    rw [applyAll, apply_flatten]
    by_cases hlist : u.isList = true
    · rw [if_pos hlist, if_pos hlist]
      exact map_leaves_applyAll_opened after u
    · rw [if_neg hlist, if_neg hlist]
      rfl

end Step

namespace Selector

variable {s : Selector} {i : Nat} {v : Value} {bindings : Bindings} {ls : List Value}

/-- The selector with one more flattening after its first steps. -/
def flattenAt (s : Selector) (i : Nat) : Selector :=
  ⟨s.binding, s.steps.take i ++ .flatten :: s.steps.drop i⟩

theorem resolveIn_of_bound (hbound : bindings.get? s.binding = some v) :
    s.resolveIn bindings = s.resolve v := by
  unfold resolveIn
  rw [hbound]

/-- **An evaluation lists the leaves** of what the selector leads to, from left to right. -/
theorem evaluate_eq_ok_iff :
    s.evaluate bindings = .ok ls ↔ ∃ w, s.resolveIn bindings = .ok w ∧ w.LeavesFromLeft ls := by
  simp only [evaluate, Value.leavesFromLeft_iff]
  cases s.resolveIn bindings <;> simp [Except.map, eq_comm]

theorem exists_evaluate_iff_of_bound (hbound : bindings.get? s.binding = some v) :
    (∃ ls, s.evaluate bindings = .ok ls) ↔ ∃ w, s.resolve v = .ok w := by
  rw [evaluate, resolveIn_of_bound hbound]
  cases s.resolve v <;> simp [Except.map]

theorem evaluate_eq_ok_iff_of_bound (hbound : bindings.get? s.binding = some v) :
    s.evaluate bindings = .ok ls ↔ (Step.applyAll s.steps v).map Value.leaves = .ok ls := by
  rw [evaluate, resolveIn_of_bound hbound, resolve]
  cases Step.applyAll s.steps v <;> simp [Except.map]

/-- **One more flattening does not change an evaluation**, as long as the value that it is applied
to is a list. -/
theorem evaluate_flattenAt_eq_ok_iff (hbound : bindings.get? s.binding = some v) :
    (s.flattenAt i).evaluate bindings = .ok ls ↔
      (∃ items, Step.applyAll (s.steps.take i) v = .ok (.list items)) ∧
        s.evaluate bindings = .ok ls := by
  have hsteps : Step.applyAll s.steps v =
      (Step.applyAll (s.steps.take i) v).bind (Step.applyAll (s.steps.drop i)) := by
    rw [← Step.applyAll_append, List.take_append_drop]
  rw [evaluate_eq_ok_iff_of_bound (s := s.flattenAt i) hbound, evaluate_eq_ok_iff_of_bound hbound,
    flattenAt, Step.map_leaves_applyAll_flatten, hsteps]
  cases Step.applyAll (s.steps.take i) v with
  | error fault => simp [Except.bind, Except.map]
  | ok u =>
    rcases u.list_cases with ⟨items, rfl⟩ | hlist
    · simp [Except.bind, Value.isList]
    · have hne : ¬ ∃ items, u = .list items := by
        rintro ⟨items, rfl⟩
        cases hlist
      simp [Except.bind, hlist, hne]

/-- **Flattening early or late makes no difference.** A selector with one more flattening, at any
position, leads somewhere only where the selector without it does, and is then evaluated alike; and
it leads somewhere where the selector without it does, if a list is reached at its position. What
an evaluation returns holds no list: it is the leaves of the value that the selector leads to, from
left to right. -/
theorem flattening_anywhere (s : Selector) (i : Nat) (bindings : Bindings) :
    let early := s.flattenAt i
    let alike := ∃ ls, early.evaluate bindings = .ok ls ∧ s.evaluate bindings = .ok ls
    (∀ v, bindings.get? s.binding = some v →
      (∀ w, early.resolve v = .ok w → (∃ u, s.resolve v = .ok u) ∧ alike) ∧
      ∀ u items, s.resolve v = .ok u → Step.applyAll (s.steps.take i) v = .ok (.list items) →
        (∃ w, early.resolve v = .ok w) ∧ alike) ∧
    ∀ ls, s.evaluate bindings = .ok ls → (∀ leaf ∈ ls, leaf.isList = false) ∧
      ∃ w, s.resolveIn bindings = .ok w ∧ w.LeavesFromLeft ls := by
  dsimp only
  refine ⟨?_, ?_⟩
  · intro v hbound
    have hboundEarly : bindings.get? (s.flattenAt i).binding = some v := hbound
    rw [← exists_evaluate_iff_of_bound hbound, ← exists_evaluate_iff_of_bound hboundEarly]
    constructor
    · intro w hw
      obtain ⟨ls, hearly⟩ := (exists_evaluate_iff_of_bound hboundEarly).2 ⟨w, hw⟩
      have hlate : s.evaluate bindings = .ok ls :=
        ((evaluate_flattenAt_eq_ok_iff hbound).1 hearly).2
      exact ⟨⟨ls, hlate⟩, ls, hearly, hlate⟩
    · intro u items hu hreached
      obtain ⟨ls, hlate⟩ := (exists_evaluate_iff_of_bound hbound).2 ⟨u, hu⟩
      have hearly : (s.flattenAt i).evaluate bindings = .ok ls :=
        (evaluate_flattenAt_eq_ok_iff hbound).2 ⟨⟨items, hreached⟩, hlate⟩
      exact ⟨⟨ls, hearly⟩, ls, hearly, hlate⟩
  · intro ls hls
    obtain ⟨w, hw, hleaves⟩ := evaluate_eq_ok_iff.1 hls
    refine ⟨?_, w, hw, hleaves⟩
    intro leaf hleaf
    rw [Value.leavesFromLeft_iff.1 hleaves] at hleaf
    exact Value.isList_of_mem_leaves hleaf

end Selector

namespace Sample

/-- The tags of all parts of a case. -/
def byTag : Selector := ⟨"case", [.field "parts", .field "tags"]⟩

/-- A case of two parts, of which the first is a list of one part again, with a list of tags. -/
def nested : Value :=
  .record [("parts", .list [.list [.record [("tags", .list [.str "new"])]],
    .record [("tags", .str "open")]])]

end Sample

/-- Flattening the parts first leaves no trace in the evaluation, also if a part is a list and its
tags are a list again. -/
theorem flattening_anywhere_sample :
    let s := Sample.byTag
    let early := s.flattenAt 1
    let bindings := s.bind Sample.nested
    let tags := [Value.str "new", .str "open"]
    bindings.get? s.binding = some Sample.nested ∧
      (∃ w, s.resolve Sample.nested = .ok w) ∧ (∃ w, early.resolve Sample.nested = .ok w) ∧
      early.evaluate bindings = .ok tags ∧ s.evaluate bindings = .ok tags ∧
      ∃ w, s.resolveIn bindings = .ok w ∧ w.LeavesFromLeft tags := by
  intro s early bindings tags
  have hbound : bindings.get? s.binding = some Sample.nested := rfl
  have hearly : early.evaluate bindings = .ok tags := rfl
  obtain ⟨hpositions, hleaves⟩ := s.flattening_anywhere 1 bindings
  obtain ⟨honly, hlists⟩ := hpositions _ hbound
  obtain ⟨⟨u, hu⟩, ls, hls, hlate⟩ := honly _ rfl
  obtain ⟨hresolves, -⟩ := hlists u _ hu rfl
  cases hearly.symm.trans hls
  exact ⟨hbound, ⟨u, hu⟩, hresolves, hearly, hlate, (hleaves tags hlate).2⟩

end AccessGuard
