import AccessGuard.CandidateSet
import AccessGuard.Proofs.ByteOrder
import Mathlib.Data.List.Dedup
import Mathlib.Data.List.Induction
import Mathlib.Tactic.MkIffOfInductiveProp

/-!
# The order of values, and what it holds together

Values are ordered by kind, and within a kind by size, by the bytes of their text, or
lexicographically. Said apart from the comparison this is a relation, `Value.Below`, and the
comparison decides it. A set of candidates keeps its members in this order and looks them up by
it, so what a set holds after any number of removals is told by its history alone.

* `Value.compare_eq_lt`: the comparison decides the order.
* `mem_after`: what a set holds after a history of steps.
* `size_after`: how many values that are.
* `order_holds_candidates`: the order is total, and what follows for sets of candidates.
-/

namespace AccessGuard

namespace Value

/-- **The order of values.** Texts are ordered by their bytes, lists lexicographically, and records
as the lists of their (name, value) pairs; a list or record that goes on is above one that ends. -/
@[mk_iff] inductive Below : Value → Value → Prop
  | kind {v w} (h : v.kind.rank < w.kind.rank) : Below v w
  | bool : Below (bool false) (bool true)
  | int {m n} (h : m < n) : Below (int m) (int n)
  | decimal {s t} (h : bytes s < bytes t) : Below (decimal s) (decimal t)
  | str {s t} (h : bytes s < bytes t) : Below (str s) (str t)
  | list {vs ws} (h : List.Lex Below vs ws) : Below (list vs) (list ws)
  | record {es fs} (h : List.Lex (Prod.Lex (fun k l => bytes k < bytes l) Below) es fs) :
      Below (record es) (record fs)

/-! ## The comparison decides the order -/

theorem below_iff_of_kind_ne {v w : Value} (h : v.kind ≠ w.kind) :
    Below v w ↔ v.kind.rank < w.kind.rank := by
  rw [below_iff, or_iff_left]
  cases v <;> cases w <;> simp [kind] at h ⊢

/-- Only values of one kind need a proof of their own. -/
theorem compare_eq_lt_of_kind {v w : Value}
    (same : v.kind = w.kind → (compare v w = .lt ↔ Below v w)) : compare v w = .lt ↔ Below v w := by
  by_cases h : v.kind = w.kind
  · exact same h
  · rw [compare_of_kind_ne h, below_iff_of_kind_ne h, Nat.compare_eq_lt]

mutual

/-- **The comparison decides the order**, at any depth. -/
theorem compare_eq_lt : ∀ {v w : Value}, compare v w = .lt ↔ Below v w
  | list vs, w => compare_eq_lt_of_kind fun hk => by
    cases w <;> simp [kind] at hk
    rw [compare, compareItems_eq_lt]
    simp [below_iff (list vs), kind]
  | record es, w => compare_eq_lt_of_kind fun hk => by
    cases w <;> simp [kind] at hk
    rw [compare, compareFields_eq_lt]
    simp [below_iff (record es), kind]
  | null, w => compare_eq_lt_of_kind fun hk => by
    cases w <;> simp [kind] at hk
    simp [below_iff, compare, kind]
  | bool a, w => compare_eq_lt_of_kind fun hk => by
    cases w <;> simp [kind] at hk
    rename_i b
    have hbool : Ord.compare a b = .lt ↔ a = false ∧ b = true := by
      cases a <;> cases b <;> decide
    rw [compare, hbool]
    simp [below_iff, kind]
  | int m, w => compare_eq_lt_of_kind fun hk => by
    cases w <;> simp [kind] at hk
    rw [compare, Std.compare_eq_lt]
    simp [below_iff, kind]
  | decimal s, w => compare_eq_lt_of_kind fun hk => by
    cases w <;> simp [kind] at hk
    rw [compare, compare_eq_lt_iff]
    simp [below_iff, kind]
  | str s, w => compare_eq_lt_of_kind fun hk => by
    cases w <;> simp [kind] at hk
    rw [compare, compare_eq_lt_iff]
    simp [below_iff, kind]

theorem compareItems_eq_lt : ∀ {vs ws : List Value},
    compareItems vs ws = .lt ↔ List.Lex Below vs ws
  | [], [] => by simp [compareItems]
  | [], _ :: _ => by simp [compareItems]
  | _ :: _, [] => by simp [compareItems]
  | v :: vs, w :: ws => by
    rw [compareItems, Ordering.then_eq_lt, List.cons_lex_cons_iff, compare_eq_lt, compare_eq_eq,
      compareItems_eq_lt]

theorem compareFields_eq_lt : ∀ {es fs : List (String × Value)},
    compareFields es fs = .lt ↔ List.Lex (Prod.Lex (fun k l => bytes k < bytes l) Below) es fs
  | [], [] => by simp [compareFields]
  | [], _ :: _ => by simp [compareFields]
  | _ :: _, [] => by simp [compareFields]
  | (k, v) :: es, (l, w) :: fs => by
    rw [compareFields, Ordering.then_eq_lt, Ordering.then_eq_lt, List.cons_lex_cons_iff,
      Prod.lex_def, compare_eq_lt, compare_eq_eq, compareFields_eq_lt, compare_eq_lt_iff,
      Std.compare_eq_iff_eq, Prod.mk.injEq]
    constructor
    · rintro (hk | ⟨hk, hv | ⟨hv, hrest⟩⟩)
      · exact .inl (.inl hk)
      · exact .inl (.inr ⟨hk, hv⟩)
      · exact .inr ⟨⟨hk, hv⟩, hrest⟩
    · rintro ((hk | ⟨hk, hv⟩) | ⟨⟨hk, hv⟩, hrest⟩)
      · exact .inl hk
      · exact .inr ⟨hk, .inl hv⟩
      · exact .inr ⟨hk, .inr ⟨hv, hrest⟩⟩

end

theorem compare_eq_gt {v w : Value} : compare v w = .gt ↔ Below w v := by
  rw [← compare_eq_lt, ← compare_swap v w, Ordering.swap_eq_lt]

theorem Below.irrefl (v : Value) : ¬ Below v v := by
  rw [← compare_eq_lt, compare_self]
  nofun

theorem Below.trans {u v w : Value} (h₁ : Below u v) (h₂ : Below v w) : Below u w :=
  compare_eq_lt.1 (compare_lt_trans (compare_eq_lt.2 h₁) (compare_eq_lt.2 h₂))

theorem Below.trichotomy (v w : Value) : Below v w ∨ v = w ∨ Below w v := by
  cases h : compare v w with
  | lt => exact .inl (compare_eq_lt.1 h)
  | eq => exact .inr (.inl (compare_eq_eq.1 h))
  | gt => exact .inr (.inr (compare_eq_gt.1 h))

end Value

/-! ## Sets of candidates and their history -/

namespace CandidateSet

/-- What may happen to a set once it is made. A test is asked about each member once, so its
answers are those of a function of the member. -/
inductive Step
  | remove (v : Value)
  | retain (keep : Value → Bool)

namespace Step

/-- Is a value neither removed nor rejected? -/
def keeps : Step → Value → Bool
  | remove v, w => decide (w ≠ v)
  | retain keep, w => keep w

/-- What a step leaves of a set. -/
def apply (s : CandidateSet) : Step → CandidateSet
  | remove v => (s.withdraw v).2
  | retain keep => s.retain keep

theorem apply_eq_retain (s : CandidateSet) (step : Step) : step.apply s = s.retain step.keeps := by
  cases step with
  | remove v => rw [apply, withdraw_eq]; rfl
  | retain keep => rfl

end Step

/-- The set of a list after a history of steps. -/
def after (vs : List Value) (steps : List Step) : CandidateSet :=
  steps.foldl Step.apply (ofList vs)

theorem after_concat (vs : List Value) (steps : List Step) (step : Step) :
    after vs (steps ++ [step]) = step.apply (after vs steps) := by
  rw [after, List.foldl_concat]
  rfl

/-- The value was in the list, and no step took it out. -/
def Remains (vs : List Value) (steps : List Step) (v : Value) : Prop :=
  v ∈ vs ∧ ∀ step ∈ steps, step.keeps v = true

instance (vs : List Value) (steps : List Step) (v : Value) : Decidable (Remains vs steps v) :=
  inferInstanceAs (Decidable (_ ∧ _))

/-- **What is held is told by the history.** -/
theorem mem_after {v : Value} {vs : List Value} {steps : List Step} :
    v ∈ after vs steps ↔ Remains vs steps v := by
  unfold Remains
  -- one step more at the end of the history
  induction steps using List.reverseRecOn with
  | nil =>
    rw [after, List.foldl_nil, mem_ofList]
    simp
  | append_singleton steps step ih =>
    rw [after_concat, Step.apply_eq_retain, mem_retain, ih, List.forall_mem_append,
      List.forall_mem_singleton, and_assoc]

/-- **As many as there are distinct values left.** -/
theorem size_after (vs : List Value) (steps : List Step) :
    (after vs steps).size = (vs.filter fun v => decide (Remains vs steps v)).dedup.length := by
  have hsame (v : Value) : v ∈ (after vs steps).members ↔
      v ∈ (vs.filter fun v => decide (Remains vs steps v)).dedup := by
    rw [List.mem_dedup, List.mem_filter, decide_eq_true_iff]
    constructor
    · intro hmem
      have hremains : Remains vs steps v := mem_after.1 hmem
      exact ⟨hremains.1, hremains⟩
    · intro h
      exact mem_after.2 h.2
  have hperm := (List.perm_ext_iff_of_nodup (after vs steps).nodup (List.nodup_dedup _)).2 hsame
  exact hperm.length_eq

theorem ofList_eq_iff {vs ws : List Value} : ofList vs = ofList ws ↔ ∀ v, v ∈ vs ↔ v ∈ ws := by
  constructor
  · intro h v
    rw [← mem_ofList, h, mem_ofList]
  · intro h
    apply ext_mem
    intro v
    rw [mem_ofList, mem_ofList, h v]

/-- **The order is total, and holds sets of candidates together.** Of two values one is below the
other or they are equal, and the comparison tells which. A set that was made from any list and
has gone through any removals holds each of its values once, in ascending order. A value is found
at its place in the order where it was in the list and was neither removed nor rejected, and taking
it out tells whether it was there. Sets of lists with the same members are equal. -/
theorem order_holds_candidates :
    (∀ v w : Value, (compare v w = .eq ↔ v = w) ∧ (compare v w = .lt ↔ v.Below w) ∧
      (compare v w = .gt ↔ w.Below v)) ∧
    (∀ v : Value, ¬ v.Below v) ∧
    (∀ u v w : Value, u.Below v → v.Below w → u.Below w) ∧
    (∀ v w : Value, v.Below w ∨ v = w ∨ w.Below v) ∧
    (∀ (vs : List Value) (steps : List Step), let s := after vs steps
      s.members.Pairwise Value.Below ∧ s.members.Nodup ∧
      (∀ v, (s.contains v = true ↔ Remains vs steps v) ∧ (s.search v = true ↔ Remains vs steps v) ∧
        ((s.withdraw v).1 = true ↔ Remains vs steps v) ∧
        (s.withdraw v).2 = after vs (steps ++ [.remove v])) ∧
      s.size = (vs.filter fun v => decide (Remains vs steps v)).dedup.length) ∧
    ∀ vs ws : List Value, ofList vs = ofList ws ↔ ∀ v, v ∈ vs ↔ v ∈ ws := by
  refine ⟨?_, Value.Below.irrefl, fun _ _ _ => .trans, Value.Below.trichotomy, ?_,
    fun _ _ => ofList_eq_iff⟩
  · intro v w
    exact ⟨Value.compare_eq_eq, Value.compare_eq_lt, Value.compare_eq_gt⟩
  · intro vs steps s
    have hcontains (v : Value) : s.contains v = true ↔ Remains vs steps v := by
      rw [contains_eq_true]
      exact mem_after
    refine ⟨s.ascending.imp Value.compare_eq_lt.1, s.nodup, fun v => ?_, size_after vs steps⟩
    rw [search_eq_contains, withdraw_eq]
    refine ⟨hcontains v, hcontains v, hcontains v, ?_⟩
    rw [after_concat, Step.apply, withdraw_eq]

end CandidateSet

end AccessGuard
