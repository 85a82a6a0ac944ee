import AccessGuard.Value.Basic

/-!
# The order of values

Values of different kinds compare by kind. Within a kind, numbers compare by size,
texts by code point, lists lexicographically, and records as the lists of their
(name, value) pairs.

* `Value.compare_eq_eq`: two values compare as equal exactly when they are equal.
* `Value.compare_swap`: exchanging the values reverses the answer.
* `Value.compare_lt_trans`: below is transitive.

Together these make the order total; the instances at the end state this for the
library of ordered types.
-/

namespace AccessGuard

namespace Value

mutual

/-- Total order on values. -/
def compare : Value → Value → Ordering
  | bool a, bool b => Ord.compare a b
  | int a, int b => Ord.compare a b
  | decimal a, decimal b => Ord.compare a b
  | str a, str b => Ord.compare a b
  | list a, list b => compareItems a b
  | record a, record b => compareFields a b
  | a, b => Ord.compare a.kind.rank b.kind.rank
termination_by structural a => a

/-- The first difference decides; a list that ends comes first. -/
def compareItems : List Value → List Value → Ordering
  | [], [] => .eq
  | [], _ :: _ => .lt
  | _ :: _, [] => .gt
  | a :: as, b :: bs => (compare a b).then (compareItems as bs)
termination_by structural as => as

/-- Names are compared before values. -/
def compareFields : List (String × Value) → List (String × Value) → Ordering
  | [], [] => .eq
  | [], _ :: _ => .lt
  | _ :: _, [] => .gt
  | (k, a) :: as, (l, b) :: bs =>
    (Ord.compare k l).then ((compare a b).then (compareFields as bs))
termination_by structural as => as

end

/-- Values of different kinds compare by kind alone. -/
theorem compare_of_kind_ne {a b : Value} (h : a.kind ≠ b.kind) :
    compare a b = Ord.compare a.kind.rank b.kind.rank := by
  cases a <;> cases b <;> first | rfl | exact absurd rfl h

mutual

theorem eq_of_compare : ∀ {a b : Value}, compare a b = .eq → a = b
  | list as, b, h => by
    cases b
    case list bs => rw [compare] at h; rw [eq_of_compareItems h]
    all_goals exact absurd h (by simp [compare, kind, Kind.rank])
  | record as, b, h => by
    cases b
    case record bs => rw [compare] at h; rw [eq_of_compareFields h]
    all_goals exact absurd h (by simp [compare, kind, Kind.rank])
  | null, b, h | bool _, b, h | int _, b, h | decimal _, b, h | str _, b, h => by
    cases b <;> simp_all [compare, kind, Kind.rank]

theorem eq_of_compareItems : ∀ {as bs : List Value}, compareItems as bs = .eq → as = bs
  | [], [], _ => rfl
  | [], _ :: _, h => by simp [compareItems] at h
  | _ :: _, [], h => by simp [compareItems] at h
  | a :: as, b :: bs, h => by
    rw [compareItems, Ordering.then_eq_eq] at h
    rw [eq_of_compare h.1, eq_of_compareItems h.2]

theorem eq_of_compareFields :
    ∀ {as bs : List (String × Value)}, compareFields as bs = .eq → as = bs
  | [], [], _ => rfl
  | [], _ :: _, h => by simp [compareFields] at h
  | _ :: _, [], h => by simp [compareFields] at h
  | (k, a) :: as, (l, b) :: bs, h => by
    rw [compareFields, Ordering.then_eq_eq, Ordering.then_eq_eq] at h
    rw [Std.compare_eq_iff_eq.1 h.1, eq_of_compare h.2.1, eq_of_compareFields h.2.2]

end

mutual

theorem compare_self : ∀ a : Value, compare a a = .eq
  | list as => by rw [compare]; exact compareItems_self as
  | record as => by rw [compare]; exact compareFields_self as
  | null | bool _ | int _ | decimal _ | str _ => by simp [compare]

theorem compareItems_self : ∀ as : List Value, compareItems as as = .eq
  | [] => rfl
  | a :: as => by rw [compareItems, compare_self a, compareItems_self as]; rfl

theorem compareFields_self : ∀ as : List (String × Value), compareFields as as = .eq
  | [] => rfl
  | (k, a) :: as => by
    rw [compareFields, compare_self a, compareFields_self as, Std.compare_self]; rfl

end

/-- **Equal in the order is equal.** -/
@[simp] theorem compare_eq_eq {a b : Value} : compare a b = .eq ↔ a = b :=
  ⟨eq_of_compare, fun h => h ▸ compare_self a⟩

mutual

theorem compare_swap : ∀ a b : Value, (compare a b).swap = compare b a
  | list as, b => by
    cases b
    case list bs => rw [compare, compare]; exact compareItems_swap as bs
    all_goals rfl
  | record as, b => by
    cases b
    case record bs => rw [compare, compare]; exact compareFields_swap as bs
    all_goals rfl
  | null, b => by cases b <;> rfl
  | bool _, b | int _, b | decimal _, b | str _, b => by
    cases b <;> first | rfl | exact Std.OrientedOrd.eq_swap.symm

theorem compareItems_swap :
    ∀ as bs : List Value, (compareItems as bs).swap = compareItems bs as
  | [], [] | [], _ :: _ | _ :: _, [] => rfl
  | a :: as, b :: bs => by
    rw [compareItems, compareItems, Ordering.swap_then, compare_swap a b, compareItems_swap as bs]

theorem compareFields_swap :
    ∀ as bs : List (String × Value), (compareFields as bs).swap = compareFields bs as
  | [], [] | [], _ :: _ | _ :: _, [] => rfl
  | (k, a) :: as, (l, b) :: bs => by
    rw [compareFields, compareFields, Ordering.swap_then, Ordering.swap_then, compare_swap a b,
      compareFields_swap as bs, ← Std.OrientedOrd.eq_swap]

end

/-- The rule by which a lexicographic comparison is transitive: the first parts decide, and
where both are equal the second parts do. -/
private theorem then_lt_trans {α : Type} {cmp : α → α → Ordering} {a b c : α} {p q r : Ordering}
    (heq : ∀ {x y : α}, cmp x y = .eq → x = y)
    (htrans : cmp a b = .lt → cmp b c = .lt → cmp a c = .lt)
    (hrest : p = .lt → q = .lt → r = .lt)
    (h₁ : (cmp a b).then p = .lt) (h₂ : (cmp b c).then q = .lt) :
    (cmp a c).then r = .lt := by
  rw [Ordering.then_eq_lt] at h₁ h₂ ⊢
  rcases h₁ with h₁ | ⟨h₁, hp⟩ <;> rcases h₂ with h₂ | ⟨h₂, hq⟩
  · exact .inl (htrans h₁ h₂)
  · cases heq h₂; exact .inl h₁
  · cases heq h₁; exact .inl h₂
  · cases heq h₁; exact .inr ⟨h₂, hrest hp hq⟩

/-- Only values of one kind need a proof of their own: kinds themselves are ordered. -/
private theorem lt_trans_of_kind {a b c : Value} (h₁ : compare a b = .lt) (h₂ : compare b c = .lt)
    (same : a.kind = b.kind → b.kind = c.kind → compare a c = .lt) : compare a c = .lt := by
  have below {x y : Value} (h : compare x y = .lt) (hk : x.kind ≠ y.kind) :
      x.kind.rank < y.kind.rank := by
    rwa [compare_of_kind_ne hk, Nat.compare_eq_lt] at h
  by_cases hab : a.kind = b.kind
  · by_cases hbc : b.kind = c.kind
    · exact same hab hbc
    · rw [compare_of_kind_ne (hab ▸ hbc), Nat.compare_eq_lt, hab]
      exact below h₂ hbc
  · have hlt : a.kind.rank < c.kind.rank := by
      by_cases hbc : b.kind = c.kind
      · exact hbc ▸ below h₁ hab
      · exact Nat.lt_trans (below h₁ hab) (below h₂ hbc)
    rw [compare_of_kind_ne fun h => Nat.lt_irrefl _ (h ▸ hlt), Nat.compare_eq_lt]
    exact hlt

mutual

theorem compare_lt_trans :
    ∀ {a b c : Value}, compare a b = .lt → compare b c = .lt → compare a c = .lt
  | list as, b, c, h₁, h₂ => lt_trans_of_kind h₁ h₂ fun hb hc => by
    cases b <;> simp [kind] at hb
    cases c <;> simp [kind] at hc
    exact compareItems_lt_trans h₁ h₂
  | record as, b, c, h₁, h₂ => lt_trans_of_kind h₁ h₂ fun hb hc => by
    cases b <;> simp [kind] at hb
    cases c <;> simp [kind] at hc
    exact compareFields_lt_trans h₁ h₂
  | null, b, c, h₁, h₂ => lt_trans_of_kind h₁ h₂ fun hb _ => by
    cases b <;> simp [kind] at hb
    cases h₁
  | bool _, b, c, h₁, h₂ | int _, b, c, h₁, h₂ | decimal _, b, c, h₁, h₂
  | str _, b, c, h₁, h₂ => lt_trans_of_kind h₁ h₂ fun hb hc => by
    cases b <;> simp [kind] at hb
    cases c <;> simp [kind] at hc
    rw [compare] at h₁ h₂ ⊢
    exact Std.TransCmp.lt_trans h₁ h₂

theorem compareItems_lt_trans : ∀ {as bs cs : List Value},
    compareItems as bs = .lt → compareItems bs cs = .lt → compareItems as cs = .lt
  | [], [], cs, h, _ => by cases h
  | [], _ :: _, [], _, h => by cases h
  | [], _ :: _, _ :: _, _, _ => rfl
  | _ :: _, [], _, h, _ => by cases h
  | _ :: _, _ :: _, [], _, h => by cases h
  | a :: as, b :: bs, c :: cs, h₁, h₂ => by
    rw [compareItems] at h₁ h₂ ⊢
    exact then_lt_trans eq_of_compare compare_lt_trans compareItems_lt_trans h₁ h₂

theorem compareFields_lt_trans : ∀ {as bs cs : List (String × Value)},
    compareFields as bs = .lt → compareFields bs cs = .lt → compareFields as cs = .lt
  | [], [], cs, h, _ => by cases h
  | [], _ :: _, [], _, h => by cases h
  | [], _ :: _, _ :: _, _, _ => rfl
  | _ :: _, [], _, h, _ => by cases h
  | _ :: _, _ :: _, [], _, h => by cases h
  | (k, a) :: as, (l, b) :: bs, (m, c) :: cs, h₁, h₂ => by
    rw [compareFields] at h₁ h₂ ⊢
    exact then_lt_trans Std.compare_eq_iff_eq.1 Std.TransCmp.lt_trans
      (then_lt_trans eq_of_compare compare_lt_trans compareFields_lt_trans) h₁ h₂

end

instance : Ord Value := ⟨compare⟩

instance : Std.LawfulEqOrd Value where
  compare_self := compare_self _
  eq_of_compare := eq_of_compare

instance : Std.TransOrd Value where
  eq_swap := (compare_swap _ _).symm
  isLE_trans {a b c} h₁ h₂ := by
    rw [Ordering.isLE_iff_eq_lt_or_eq_eq] at h₁ h₂ ⊢
    rcases h₁ with h₁ | h₁ <;> rcases h₂ with h₂ | h₂
    · exact .inl (compare_lt_trans h₁ h₂)
    · cases eq_of_compare h₂; exact .inl h₁
    · cases eq_of_compare h₁; exact .inl h₂
    · cases eq_of_compare h₁; exact .inr h₂

instance : DecidableEq Value := fun a b =>
  decidable_of_iff (compare a b = .eq) compare_eq_eq

end Value

end AccessGuard
