import AccessGuard.Proofs.Flattening
import Mathlib.Data.List.Forall2

/-!
# Fields over nested lists

A path of fields is followed step by step, each step over the whole of a value. Of a list a step
makes a list of the same shape, and a field that is a list itself nests it deeper for the steps that
follow. What an evaluation finds in the end is none the less found leaf by leaf: each leaf of a list
may be taken alone along the whole path, and what is found comes one after the other. If one leaf
leads nowhere the list does so too, though it may report the fault of another leaf.

* `Value.LeavesReplaced`: two values of one shape, of which one has the other's leaves replaced.
* `Value.project_eq_ok_iff`: a field of a value, place by place.
* `Gathers`: what is found element by element.
* `Step.reaches_fields_iff`: a path of fields, leaf by leaf.
* `Selector.fields_distribute`: the evaluation of a path of fields on a list.
-/

namespace AccessGuard

namespace Value

variable {R : Value → Value → Prop} {v w : Value} {vs ws : List Value} {name : String}

/-! ## The shape of a list -/

/-- **The same lists with other leaves.** Where one value has a list the other has a list of the
same length, and where it has a leaf the other has what the leaf is replaced by. -/
structure LeavesReplaced (R : Value → Value → Prop) (v w : Value) : Prop where
  lists : ∀ path items, v.at? path = some (list items) →
    ∃ items', w.at? path = some (list items') ∧ items'.length = items.length
  leaves : ∀ path leaf, v.at? path = some leaf → leaf.isList = false →
    ∃ u, w.at? path = some u ∧ R leaf u

theorem leavesReplaced_of_not_list (h : v.isList = false) : LeavesReplaced R v w ↔ R v w := by
  constructor
  · intro hvw
    obtain ⟨u, hu, hR⟩ := hvw.leaves [] v (at?_nil v) h
    rw [at?_nil] at hu
    cases hu
    exact hR
  · intro hR
    -- the value has one place only, where it stands itself
    have hplace {path : List Nat} {u : Value} (hu : v.at? path = some u) : path = [] ∧ u = v := by
      cases path with
      | nil =>
        rw [at?_nil] at hu
        exact ⟨rfl, (Option.some.inj hu).symm⟩
      | cons i path =>
        rw [at?_cons_of_not_list h] at hu
        cases hu
    refine ⟨?_, ?_⟩
    · intro path items hitems
      obtain ⟨-, rfl⟩ := hplace hitems
      cases h
    · intro path leaf hleaf _
      obtain ⟨rfl, rfl⟩ := hplace hleaf
      exact ⟨w, at?_nil w, hR⟩

/-- What a list becomes is a list again. -/
theorem LeavesReplaced.exists_list (h : LeavesReplaced R (list vs) w) :
    ∃ ws, w = list ws ∧ ws.length = vs.length := by
  obtain ⟨ws, hws, hlength⟩ := h.lists [] vs (at?_nil _)
  rw [at?_nil] at hws
  exact ⟨ws, Option.some.inj hws, hlength⟩

/-- Of two lists of one length it is enough to look below the top. -/
theorem leavesReplaced_of_items (hlength : ws.length = vs.length)
    (lists : ∀ i path items, (list vs).at? (i :: path) = some (list items) →
      ∃ items', (list ws).at? (i :: path) = some (list items') ∧ items'.length = items.length)
    (leaves : ∀ i path leaf, (list vs).at? (i :: path) = some leaf → leaf.isList = false →
      ∃ u, (list ws).at? (i :: path) = some u ∧ R leaf u) :
    LeavesReplaced R (list vs) (list ws) := by
  constructor
  · intro path items hitems
    cases path with
    | nil =>
      rw [at?_nil] at hitems
      cases hitems
      exact ⟨ws, at?_nil _, hlength⟩
    | cons i path => exact lists i path items hitems
  · intro path leaf hleaf hlist
    cases path with
    | nil =>
      rw [at?_nil] at hleaf
      cases hleaf
      cases hlist
    | cons i path => exact leaves i path leaf hleaf hlist

theorem leavesReplaced_nil : LeavesReplaced R (list []) (list []) := by
  refine leavesReplaced_of_items rfl ?_ ?_
  · intro i path items hitems
    simp [at?_cons_list] at hitems
  · intro i path leaf hleaf _
    simp [at?_cons_list] at hleaf

theorem LeavesReplaced.head (h : LeavesReplaced R (list (v :: vs)) (list (w :: ws))) :
    LeavesReplaced R v w := by
  constructor
  · intro path items hitems
    simpa using h.lists (0 :: path) items (by simpa using hitems)
  · intro path leaf hleaf hlist
    simpa using h.leaves (0 :: path) leaf (by simpa using hleaf) hlist

theorem LeavesReplaced.tail (h : LeavesReplaced R (list (v :: vs)) (list (w :: ws))) :
    LeavesReplaced R (list vs) (list ws) := by
  obtain ⟨ws', hws, hlength⟩ := h.exists_list
  cases hws
  refine leavesReplaced_of_items (Nat.succ.inj hlength) ?_ ?_
  · intro i path items hitems
    simpa using h.lists ((i + 1) :: path) items (by simpa using hitems)
  · intro i path leaf hleaf hlist
    simpa using h.leaves ((i + 1) :: path) leaf (by simpa using hleaf) hlist

theorem LeavesReplaced.cons (hfirst : LeavesReplaced R v w)
    (hrest : LeavesReplaced R (list vs) (list ws)) :
    LeavesReplaced R (list (v :: vs)) (list (w :: ws)) := by
  obtain ⟨ws', hws, hlength⟩ := hrest.exists_list
  cases hws
  refine leavesReplaced_of_items (congrArg Nat.succ hlength) ?_ ?_
  · intro i path items hitems
    cases i with
    | zero => simpa using hfirst.lists path items (by simpa using hitems)
    | succ i => simpa using hrest.lists (i :: path) items (by simpa using hitems)
  · intro i path leaf hleaf hlist
    cases i with
    | zero => simpa using hfirst.leaves path leaf (by simpa using hleaf) hlist
    | succ i => simpa using hrest.leaves (i :: path) leaf (by simpa using hleaf) hlist

/-! ## A field of a value -/

theorem project_eq_ok_iff_of_not_list (h : v.isList = false) :
    v.project name = .ok w ↔ v.field? name = some w := by
  cases v with
  | list items => cases h
  | record fields =>
    rw [project, field?]
    cases fields.lookup name <;> simp
  | _ => simp [project, field?]

theorem projectAll_cons_eq_ok_iff :
    projectAll name (v :: vs) = .ok ws ↔
      ∃ u us, ws = u :: us ∧ v.project name = .ok u ∧ projectAll name vs = .ok us := by
  rw [projectAll]
  cases v.project name with
  | error fault => simp
  | ok u => cases projectAll name vs <;> simp [Except.map, eq_comm]

theorem project_list_eq_ok_iff :
    (list vs).project name = .ok w ↔ ∃ ws, w = list ws ∧ projectAll name vs = .ok ws := by
  rw [project]
  cases projectAll name vs <;> simp [Except.map, eq_comm]

mutual

/-- **A field of a value, place by place**: lists stay as long and as nested as they are, and each
leaf is replaced by its field. -/
theorem project_eq_ok_iff (name : String) : ∀ {v w : Value},
    v.project name = .ok w ↔ LeavesReplaced (fun leaf u => leaf.field? name = some u) v w
  | list vs, w => by
    rw [project_list_eq_ok_iff]
    constructor
    · rintro ⟨ws, rfl, hws⟩
      exact (projectAll_eq_ok_iff name).1 hws
    · intro h
      obtain ⟨ws, rfl, -⟩ := h.exists_list
      exact ⟨ws, rfl, (projectAll_eq_ok_iff name).2 h⟩
  | null, _ | bool _, _ | int _, _ | decimal _, _ | str _, _ | record _, _ => by
    rw [project_eq_ok_iff_of_not_list rfl, leavesReplaced_of_not_list rfl]

theorem projectAll_eq_ok_iff (name : String) : ∀ {vs ws : List Value},
    projectAll name vs = .ok ws ↔
      LeavesReplaced (fun leaf u => leaf.field? name = some u) (list vs) (list ws)
  | [], ws => by
    constructor
    · rintro ⟨⟩
      exact leavesReplaced_nil
    · intro h
      obtain ⟨ws', hws, hlength⟩ := h.exists_list
      cases hws
      rw [List.eq_nil_of_length_eq_zero hlength]
      rfl
  | v :: vs, [] => by
    have hne : ¬ LeavesReplaced (fun leaf u => leaf.field? name = some u) (list (v :: vs))
        (list []) := by
      intro h
      obtain ⟨ws', hws, hlength⟩ := h.exists_list
      cases hws
      cases hlength
    rw [projectAll_cons_eq_ok_iff]
    exact iff_of_false (by simp) hne
  | v :: vs, w :: ws => by
    rw [projectAll_cons_eq_ok_iff]
    constructor
    · rintro ⟨u, us, heq, hu, hus⟩
      cases heq
      exact ((project_eq_ok_iff name).1 hu).cons ((projectAll_eq_ok_iff name).1 hus)
    · intro h
      exact ⟨w, ws, rfl, (project_eq_ok_iff name).2 h.head, (projectAll_eq_ok_iff name).2 h.tail⟩

end

end Value

/-! ## What is found element by element -/

section Gathers

variable {α β : Type} {R S : α → List β → Prop} {x : α} {xs ys : List α} {ls : List β}

/-- What is found of the elements of a list, one after the other. -/
def Gathers (R : α → List β → Prop) (xs : List α) (ls : List β) : Prop :=
  ∃ parts, List.Forall₂ R xs parts ∧ ls = parts.flatten

theorem gathers_nil : Gathers R [] ls ↔ ls = [] := by
  simp [Gathers]

theorem gathers_cons : Gathers R (x :: xs) ls ↔
    ∃ part rest, R x part ∧ Gathers R xs rest ∧ ls = part ++ rest := by
  unfold Gathers
  simp only [List.forall₂_cons_left_iff]
  constructor
  · rintro ⟨-, ⟨part, parts, hx, hxs, rfl⟩, rfl⟩
    exact ⟨part, parts.flatten, hx, ⟨parts, hxs, rfl⟩, List.flatten_cons⟩
  · rintro ⟨part, -, hx, ⟨parts, hxs, rfl⟩, rfl⟩
    exact ⟨part :: parts, ⟨part, parts, hx, hxs, rfl⟩, List.flatten_cons.symm⟩

theorem gathers_singleton : Gathers R [x] ls ↔ R x ls := by
  simp [gathers_cons, gathers_nil]

theorem gathers_append : Gathers R (xs ++ ys) ls ↔
    ∃ front back, Gathers R xs front ∧ Gathers R ys back ∧ ls = front ++ back := by
  induction xs generalizing ls with
  | nil => simp [gathers_nil]
  | cons x xs ih =>
    rw [List.cons_append, gathers_cons]
    constructor
    · rintro ⟨part, rest, hx, hrest, rfl⟩
      obtain ⟨front, back, hfront, hback, rfl⟩ := ih.1 hrest
      exact ⟨part ++ front, back, gathers_cons.2 ⟨part, front, hx, hfront, rfl⟩, hback,
        (List.append_assoc part front back).symm⟩
    · rintro ⟨front, back, hfront, hback, rfl⟩
      obtain ⟨part, rest, hx, hrest, rfl⟩ := gathers_cons.1 hfront
      exact ⟨part, rest ++ back, hx, ih.2 ⟨rest, back, hrest, hback, rfl⟩,
        List.append_assoc part rest back⟩

theorem gathers_congr (h : ∀ x ∈ xs, ∀ part, R x part ↔ S x part) :
    Gathers R xs ls ↔ Gathers S xs ls := by
  induction xs generalizing ls with
  | nil => rw [gathers_nil, gathers_nil]
  | cons x xs ih =>
    rw [List.forall_mem_cons] at h
    simp only [gathers_cons, h.1, ih h.2]

theorem gathers_eq_iff {f : α → List β} :
    Gathers (fun x part => f x = part) xs ls ↔ xs.flatMap f = ls := by
  induction xs generalizing ls with
  | nil => rw [gathers_nil, List.flatMap_nil, eq_comm]
  | cons x xs ih =>
    simp only [gathers_cons, ih, List.flatMap_cons]
    constructor
    · rintro ⟨-, -, rfl, rfl, rfl⟩
      rfl
    · rintro rfl
      exact ⟨f x, xs.flatMap f, rfl, rfl, rfl⟩

/-- Something is found of all if it is of each. -/
theorem exists_gathers_iff : (∃ ls, Gathers R xs ls) ↔ ∀ x ∈ xs, ∃ part, R x part := by
  induction xs with
  | nil => simp [gathers_nil]
  | cons x xs ih =>
    rw [List.forall_mem_cons, ← ih]
    constructor
    · rintro ⟨ls, h⟩
      obtain ⟨part, rest, hx, hrest, -⟩ := gathers_cons.1 h
      exact ⟨⟨part, hx⟩, rest, hrest⟩
    · rintro ⟨⟨part, hx⟩, rest, hrest⟩
      exact ⟨part ++ rest, gathers_cons.2 ⟨part, rest, hx, hrest, rfl⟩⟩

end Gathers

/-! ## A path of fields -/

namespace Value

variable {Q : Value → List Value → Prop} {name : String}

mutual

/-- **A field, and then what is found of its leaves**: found of each leaf alone, its field first. -/
theorem project_gathers_iff : ∀ {v : Value} {ls : List Value},
    (∃ w, v.project name = .ok w ∧ Gathers Q w.leaves ls) ↔
      Gathers (fun leaf part => ∃ u, leaf.project name = .ok u ∧ Gathers Q u.leaves part)
        v.leaves ls
  | list vs, ls => by
    rw [leaves, ← projectAll_gathers_iff]
    simp only [project_list_eq_ok_iff]
    constructor
    · rintro ⟨-, ⟨ws, rfl, hws⟩, hls⟩
      exact ⟨ws, hws, hls⟩
    · rintro ⟨ws, hws, hls⟩
      exact ⟨list ws, ⟨ws, rfl, hws⟩, hls⟩
  | null, _ | bool _, _ | int _, _ | decimal _, _ | str _, _ | record _, _ => by
    rw [leaves_of_not_list rfl, gathers_singleton]

theorem projectAll_gathers_iff : ∀ {vs ls : List Value},
    (∃ ws, projectAll name vs = .ok ws ∧ Gathers Q (leavesOf ws) ls) ↔
      Gathers (fun leaf part => ∃ u, leaf.project name = .ok u ∧ Gathers Q u.leaves part)
        (leavesOf vs) ls
  | [], ls => by simp [projectAll, leavesOf, gathers_nil]
  | v :: vs, ls => by
    rw [leavesOf, gathers_append]
    simp only [← project_gathers_iff, ← projectAll_gathers_iff, projectAll_cons_eq_ok_iff]
    constructor
    · rintro ⟨-, ⟨u, us, rfl, hu, hus⟩, hls⟩
      rw [leavesOf, gathers_append] at hls
      obtain ⟨front, back, hfront, hback, rfl⟩ := hls
      exact ⟨front, back, ⟨u, hu, hfront⟩, ⟨us, hus, hback⟩, rfl⟩
    · rintro ⟨front, back, ⟨u, hu, hfront⟩, ⟨us, hus, hback⟩, rfl⟩
      refine ⟨u :: us, ⟨u, us, rfl, hu, hus⟩, ?_⟩
      rw [leavesOf, gathers_append]
      exact ⟨front, back, hfront, hback, rfl⟩

end

end Value

namespace Step

/-- Steps from a value lead to one with these leaves. -/
def Reaches (steps : List Step) (v : Value) (ls : List Value) : Prop :=
  (applyAll steps v).map Value.leaves = .ok ls

theorem reaches_nil {v : Value} {ls : List Value} : Reaches [] v ls ↔ v.leaves = ls := by
  simp [Reaches, applyAll, Except.map]

theorem reaches_field_cons {name : String} {steps : List Step} {v : Value} {ls : List Value} :
    Reaches (field name :: steps) v ls ↔ ∃ w, v.project name = .ok w ∧ Reaches steps w ls := by
  have hstep : (field name).apply v = v.project name := rfl
  unfold Reaches
  rw [applyAll, hstep]
  cases v.project name <;> simp [Except.map]

/-- **A path of fields is followed leaf by leaf.** -/
theorem reaches_fields_iff (names : List String) {v : Value} {ls : List Value} :
    Reaches (names.map field) v ls ↔ Gathers (Reaches (names.map field)) v.leaves ls := by
  -- over the names: what the first field leads to has leaves of its own, which the rest starts from
  induction names generalizing v ls with
  | nil =>
    have hself : v.leaves.flatMap Value.leaves = v.leaves := by
      rw [← Value.leavesOf_eq_flatMap, Value.leavesOf_leaves]
    have hnil : Reaches [] = fun v ls => v.leaves = ls := by
      funext v ls
      exact propext reaches_nil
    rw [List.map_nil, hnil, gathers_eq_iff, hself]
  | cons name names ih =>
    calc Reaches ((name :: names).map field) v ls
        ↔ ∃ w, v.project name = .ok w ∧ Reaches (names.map field) w ls := reaches_field_cons
      _ ↔ ∃ w, v.project name = .ok w ∧ Gathers (Reaches (names.map field)) w.leaves ls :=
        exists_congr fun w => and_congr_right fun _ => ih
      _ ↔ Gathers (fun leaf part => ∃ u, leaf.project name = .ok u ∧
            Gathers (Reaches (names.map field)) u.leaves part) v.leaves ls :=
        Value.project_gathers_iff
      _ ↔ Gathers (Reaches ((name :: names).map field)) v.leaves ls := by
        refine gathers_congr fun leaf _ part => ?_
        rw [List.map_cons, reaches_field_cons]
        exact exists_congr fun u => and_congr_right fun _ => ih.symm

end Step

namespace Selector

theorem resolve_field_eq_ok_iff {binding name : String} {v w : Value} :
    (⟨binding, [.field name]⟩ : Selector).resolve v = .ok w ↔ v.project name = .ok w := by
  have hstep : (Step.field name).apply v = v.project name := rfl
  rw [resolve, Step.applyAll, hstep]
  cases v.project name <;> simp [Step.applyAll]

/-- **Fields distribute over lists.** A path of fields is evaluated on a list, nested to any depth,
if and only if it is on each of its leaves, and the list then holds what the leaves do, one after
the other. A single step makes of a list one of the same shape, with the field of each leaf in its
place. -/
theorem fields_distribute (binding : String) (names : List String) (bindings : Bindings)
    (items : List Value) :
    let s : Selector := ⟨binding, names.map .field⟩
    let evaluated (v : Value) := s.evaluate (bindings.insert binding v)
    let leaves := (Value.list items).leaves
    (Value.list items).LeavesFromLeft leaves ∧
    ((∃ ls, evaluated (.list items) = .ok ls) ↔ ∀ leaf ∈ leaves, ∃ ls, evaluated leaf = .ok ls) ∧
    (∀ ls, evaluated (.list items) = .ok ls ↔ ∃ parts,
      List.Forall₂ (fun leaf part => evaluated leaf = .ok part) leaves parts ∧
        ls = parts.flatten) ∧
    ∀ name w, (⟨binding, [.field name]⟩ : Selector).resolve (.list items) = .ok w ↔
      Value.LeavesReplaced (fun leaf u => leaf.field? name = some u) (.list items) w := by
  intro s evaluated leaves
  have hreaches (v : Value) (ls : List Value) :
      evaluated v = .ok ls ↔ Step.Reaches (names.map .field) v ls :=
    evaluate_eq_ok_iff_of_bound ((bindings.get?_insert binding binding v).trans (if_pos rfl))
  have hgathers (ls : List Value) : evaluated (.list items) = .ok ls ↔
      Gathers (fun leaf part => evaluated leaf = .ok part) leaves ls := by
    simp only [hreaches]
    exact Step.reaches_fields_iff names
  refine ⟨Value.leavesFromLeft_iff.2 rfl, ?_, hgathers, ?_⟩
  · simp only [hgathers]
    exact exists_gathers_iff
  · intro name w
    rw [resolve_field_eq_ok_iff, Value.project_eq_ok_iff]

/-- The first leaf leads nowhere at its second field. The list gets no further than the first field,
which the second leaf does not have. -/
example :
    let steps := [Step.field "owner", Step.field "county"]
    let leaf := Value.record [("owner", .record [])]
    Step.applyAll steps leaf = .error (.missingField "county") ∧
      Step.applyAll steps (.list [leaf, .record []]) = .error (.missingField "owner") :=
  ⟨rfl, rfl⟩

end Selector

end AccessGuard
