import AccessGuard.Value.Basic
import Mathlib.Data.List.Sort

/-!
# The places of leaves

A value that stands in nested lists has a place: its position in the outermost list, its position
in the list there, and so on. Places are compared number by number, so an earlier place is further
to the left. The leaves of a value are what stands at its places and is no list, from left to
right, at whatever depth.

* `map_leaf_placedLeaves`, `mem_placedLeaves`, `pairwise_placedLeaves`: the leaves are listed in the
  order of their places.
* `leavesFromLeft_iff`: a list of the leaves in the order of their places is the list of leaves.
* `leaves_eq_nil_iff`: a value without leaves holds nothing but lists.
-/

namespace AccessGuard

namespace Value

/-- The value at a place. -/
def at? : Value → List Nat → Option Value
  | v, [] => some v
  | list items, i :: path =>
    match items[i]? with
    | some w => w.at? path
    | none => none
  | _, _ :: _ => none

/-- **The leaves from left to right**: what stands at a place and is no list, in the order of the
places. -/
def LeavesFromLeft (v : Value) (ls : List Value) : Prop :=
  ∃ placed : List (List Nat × Value), placed.map (·.2) = ls ∧
    placed.Pairwise (fun a b => a.1 < b.1) ∧
    ∀ path leaf, (path, leaf) ∈ placed ↔ v.at? path = some leaf ∧ leaf.isList = false

/-- Does it hold nothing but lists, at any depth? -/
def Leafless (v : Value) : Prop := ∀ path u, v.at? path = some u → u.isList = true

mutual

/-- The leaves together with their places. -/
def placedLeaves : Value → List (List Nat × Value)
  | list items => placedLeavesFrom items 0
  | v => [([], v)]
termination_by structural v => v

/-- The leaves of the values from a position on. -/
def placedLeavesFrom : List Value → Nat → List (List Nat × Value)
  | [], _ => []
  | v :: vs, i =>
    (placedLeaves v).map (fun (path, leaf) => (i :: path, leaf)) ++ placedLeavesFrom vs (i + 1)
termination_by structural vs => vs

end

variable {v w leaf : Value} {items : List Value} {path : List Nat} {i : Nat}

@[simp] theorem at?_nil (v : Value) : v.at? [] = some v := by
  cases v <;> rfl

theorem at?_cons_list : (list items).at? (i :: path) = items[i]?.bind fun w => w.at? path := by
  rw [at?]
  cases items[i]? <;> rfl

@[simp] theorem at?_zero (v : Value) (vs : List Value) (path : List Nat) :
    (list (v :: vs)).at? (0 :: path) = v.at? path := by
  rw [at?_cons_list]; rfl

@[simp] theorem at?_succ (v : Value) (vs : List Value) (i : Nat) (path : List Nat) :
    (list (v :: vs)).at? ((i + 1) :: path) = (list vs).at? (i :: path) := by
  rw [at?_cons_list, at?_cons_list, List.getElem?_cons_succ]

theorem at?_cons_of_not_list (h : v.isList = false) : v.at? (i :: path) = none := by
  cases v <;> first | rfl | cases h

theorem placedLeaves_of_not_list (h : v.isList = false) : v.placedLeaves = [([], v)] := by
  cases v <;> first | rfl | cases h

/-! ## Leaves in the order of their places -/

mutual

/-- Without their places they are the leaves. -/
theorem map_leaf_placedLeaves : ∀ v : Value, v.placedLeaves.map (·.2) = v.leaves
  | list items => by rw [placedLeaves, leaves, map_leaf_placedLeavesFrom items 0]
  | null | bool _ | int _ | decimal _ | str _ | record _ => rfl

theorem map_leaf_placedLeavesFrom : ∀ (vs : List Value) (i : Nat),
    (placedLeavesFrom vs i).map (·.2) = leavesOf vs
  | [], _ => rfl
  | v :: vs, i => by
    rw [placedLeavesFrom, leavesOf, List.map_append, List.map_map, map_leaf_placedLeavesFrom vs,
      ← map_leaf_placedLeaves v]
    rfl

end

theorem mem_placedLeaves_of_not_list (h : v.isList = false) :
    (path, leaf) ∈ v.placedLeaves ↔ v.at? path = some leaf ∧ leaf.isList = false := by
  rw [placedLeaves_of_not_list h, List.mem_singleton, Prod.mk.injEq]
  cases path with
  | nil =>
    rw [at?_nil, Option.some.injEq]
    constructor
    · rintro ⟨-, rfl⟩
      exact ⟨rfl, h⟩
    · rintro ⟨rfl, -⟩
      exact ⟨rfl, rfl⟩
  | cons i path => simp [at?_cons_of_not_list h]

mutual

/-- **A leaf is listed with a place** exactly if it stands there. -/
theorem mem_placedLeaves : ∀ {v : Value} {path : List Nat} {leaf : Value},
    (path, leaf) ∈ v.placedLeaves ↔ v.at? path = some leaf ∧ leaf.isList = false
  | list items, path, leaf => by
    rw [placedLeaves, mem_placedLeavesFrom]
    cases path with
    | nil =>
      -- the list itself stands there, and is no leaf
      rw [at?_nil, Option.some.injEq]
      constructor
      · rintro ⟨j, rest, hpath, -⟩
        cases hpath
      · rintro ⟨rfl, hleaf⟩
        cases hleaf
    | cons i path => simp
  | null, _, _ | bool _, _, _ | int _, _, _ | decimal _, _, _ | str _, _, _ | record _, _, _ =>
    mem_placedLeaves_of_not_list rfl

theorem mem_placedLeavesFrom : ∀ {vs : List Value} {i : Nat} {path : List Nat} {leaf : Value},
    (path, leaf) ∈ placedLeavesFrom vs i ↔
      ∃ j rest, path = (i + j) :: rest ∧ (list vs).at? (j :: rest) = some leaf ∧
        leaf.isList = false
  | [], i, path, leaf => by simp [placedLeavesFrom, at?_cons_list]
  | v :: vs, i, path, leaf => by
    rw [placedLeavesFrom, List.mem_append, List.mem_map, mem_placedLeavesFrom]
    -- the place begins with the position of the first value or with a later one
    constructor
    · rintro (⟨⟨rest, leaf'⟩, hmem, he⟩ | ⟨j, rest, rfl, hat, hleaf⟩)
      · cases he
        obtain ⟨hat, hleaf⟩ := mem_placedLeaves.1 hmem
        exact ⟨0, rest, rfl, by rwa [at?_zero], hleaf⟩
      · exact ⟨j + 1, rest, by rw [Nat.add_right_comm, Nat.add_assoc], by rwa [at?_succ], hleaf⟩
    · rintro ⟨j, rest, rfl, hat, hleaf⟩
      cases j with
      | zero =>
        rw [at?_zero] at hat
        exact .inl ⟨(rest, leaf), mem_placedLeaves.2 ⟨hat, hleaf⟩, rfl⟩
      | succ j =>
        rw [at?_succ] at hat
        exact .inr ⟨j, rest, by rw [Nat.add_right_comm, Nat.add_assoc], hat, hleaf⟩

end

mutual

/-- **Earlier leaves stand further to the left.** -/
theorem pairwise_placedLeaves : ∀ v : Value, v.placedLeaves.Pairwise fun a b => a.1 < b.1
  | list items => pairwise_placedLeavesFrom items 0
  | null | bool _ | int _ | decimal _ | str _ | record _ => List.pairwise_singleton _ _

theorem pairwise_placedLeavesFrom : ∀ (vs : List Value) (i : Nat),
    (placedLeavesFrom vs i).Pairwise fun a b => a.1 < b.1
  | [], _ => List.Pairwise.nil
  | v :: vs, i => by
    rw [placedLeavesFrom, List.pairwise_append, List.pairwise_map]
    refine ⟨?_, pairwise_placedLeavesFrom vs (i + 1), ?_⟩
    · apply (pairwise_placedLeaves v).imp
      intro a b hab
      exact List.cons_lt_cons_iff.2 (.inr ⟨rfl, hab⟩)
    · -- the places in the first value begin with the position before all others
      intro a ha b hb
      obtain ⟨⟨first, leaf⟩, -, rfl⟩ := List.mem_map.1 ha
      obtain ⟨j, rest, hb, -⟩ := mem_placedLeavesFrom.1 hb
      rw [hb]
      exact List.cons_lt_cons_iff.2 (.inl (by omega))

end

/-! ## What the leaves are -/

/-- **Only the leaves are listed from left to right**: the order of the places leaves no choice. -/
theorem leavesFromLeft_iff {ls : List Value} : v.LeavesFromLeft ls ↔ ls = v.leaves := by
  constructor
  · rintro ⟨placed, rfl, hsorted, hmem⟩
    have : Std.Irrefl fun a b : List Nat × Value => a.1 < b.1 := ⟨fun a => List.lt_irrefl a.1⟩
    have : Std.Antisymm fun a b : List Nat × Value => a.1 < b.1 :=
      ⟨fun _ _ hab hba => absurd hba (List.lt_asymm hab)⟩
    rw [← map_leaf_placedLeaves]
    congr 1
    apply hsorted.eq_of_mem_iff v.pairwise_placedLeaves
    rintro ⟨path, leaf⟩
    rw [hmem, mem_placedLeaves]
  · rintro rfl
    exact ⟨v.placedLeaves, map_leaf_placedLeaves v, pairwise_placedLeaves v,
      fun _ _ => mem_placedLeaves⟩

/-- No leaf is a list. -/
theorem isList_of_mem_leaves (h : leaf ∈ v.leaves) : leaf.isList = false := by
  rw [← map_leaf_placedLeaves, List.mem_map] at h
  obtain ⟨⟨path, leaf⟩, hmem, rfl⟩ := h
  exact (mem_placedLeaves.1 hmem).2

/-- **No leaves** are left of a value that holds nothing but lists. -/
theorem leaves_eq_nil_iff : v.leaves = [] ↔ v.Leafless := by
  rw [← map_leaf_placedLeaves, List.map_eq_nil_iff, List.eq_nil_iff_forall_not_mem]
  constructor
  · intro h path u hat
    rw [← Bool.not_eq_false]
    intro hu
    exact h (path, u) (mem_placedLeaves.2 ⟨hat, hu⟩)
  · rintro h ⟨path, u⟩ hmem
    obtain ⟨hat, hu⟩ := mem_placedLeaves.1 hmem
    rw [h path u hat] at hu
    cases hu

end Value

end AccessGuard
