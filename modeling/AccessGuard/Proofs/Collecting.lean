import AccessGuard.Table
import Mathlib.Data.List.Induction

/-!
# Filling a table entry by entry

What is registered is registered by calls, each of which may fail, and none of which takes a key
that is taken. What has been filled in so is said without a word about the order of the calls: a
table holds what became of the entries that were put into it, no two of them under one key.

* `foldlM_eq_ok_iff`, `foldlM_eq_error_iff`: calls in turn, up to the first that fails.
* `Table.Collects`: what a table holds that was filled entry by entry.
* `Collects.concat_iff`, `Collects.perm`: one entry more, and the entries in another order.
* `exists_collects`: entries that can be collected.
-/

namespace AccessGuard

/-! ## Calls in turn -/

section Calls

variable {σ α ε : Type} {f : σ → α → Except ε σ}

theorem exists_error_iff {x : Except ε α} : (∃ e, x = .error e) ↔ ¬ ∃ a, x = .ok a := by
  cases x <;> simp

theorem foldlM_concat_eq_ok_iff {xs : List α} {x : α} {start t : σ} :
    (xs ++ [x]).foldlM f start = .ok t ↔ ∃ s, xs.foldlM f start = .ok s ∧ f s x = .ok t := by
  rw [List.foldlM_append]
  cases xs.foldlM f start with
  | error e => simp [bind, Except.bind]
  | ok s => cases hx : f s x <;> simp [bind, Except.bind, pure, Except.pure, hx]

/-- **What calls in turn have made.** If it is known what each further call makes of what was
made before, it is known of all of them; and what can be made by some calls must be seen to need
those before the last. -/
theorem foldlM_eq_ok_iff {start : σ} (Made : List α → σ → Prop)
    (nil : ∀ s, Made [] s ↔ s = start)
    (step : ∀ xs s, Made xs s → ∀ x t, f s x = .ok t ↔ Made (xs ++ [x]) t)
    (front : ∀ xs x t, Made (xs ++ [x]) t → ∃ s, Made xs s) (xs : List α) (s : σ) :
    xs.foldlM f start = .ok s ↔ Made xs s := by
  induction xs using List.reverseRecOn generalizing s with
  | nil =>
    rw [nil, List.foldlM_nil]
    exact ⟨fun h => (Except.ok.inj h).symm, fun h => congrArg Except.ok h.symm⟩
  | append_singleton xs x ih =>
    rw [foldlM_concat_eq_ok_iff]
    constructor
    · rintro ⟨t, ht, hx⟩
      exact (step xs t ((ih t).1 ht) x s).1 hx
    · intro h
      obtain ⟨t, ht⟩ := front xs x s h
      exact ⟨t, (ih t).2 ht, (step xs t ht x s).2 h⟩

/-- **Calls in turn fail at the first that fails.** -/
theorem foldlM_eq_error_iff {xs : List α} {start : σ} {e : ε} :
    xs.foldlM f start = .error e ↔
      ∃ before x after s, xs = before ++ x :: after ∧ before.foldlM f start = .ok s ∧
        f s x = .error e := by
  induction xs generalizing start with
  | nil =>
    constructor
    · intro h
      cases h
    · rintro ⟨before, x, after, s, h, -⟩
      cases before <;> cases h
  | cons x xs ih =>
    rw [List.foldlM_cons]
    cases hx : f start x with
    | error e' =>
      constructor
      · intro h
        cases h
        exact ⟨[], x, xs, start, rfl, rfl, hx⟩
      · rintro ⟨before, y, after, s, h, hs, hy⟩
        cases before with
        | nil =>
          cases h
          cases hs
          exact hx.symm.trans hy
        | cons z before =>
          cases h
          rw [List.foldlM_cons, hx] at hs
          cases hs
    | ok t =>
      refine Iff.trans ih ?_
      constructor
      · rintro ⟨before, y, after, s, rfl, hs, hy⟩
        refine ⟨x :: before, y, after, s, rfl, ?_, hy⟩
        rw [List.foldlM_cons, hx]
        exact hs
      · rintro ⟨before, y, after, s, h, hs, hy⟩
        cases before with
        | nil =>
          cases h
          cases hs
          cases hx.symm.trans hy
        | cons z before =>
          cases h
          rw [List.foldlM_cons, hx] at hs
          exact ⟨before, y, after, s, rfl, hs, hy⟩

end Calls

/-! ## Tables that were filled entry by entry -/

section Tables

variable {κ α β ε : Type} [Ord κ] [DecidableEq κ]

/-- **What a table holds that was filled entry by entry**: no two entries have one key, and under
each key it holds what its entry is read as under this key. -/
structure Table.Collects (read : κ → α → Except ε β) (entries : List (κ × α)) (t : Table κ β) :
    Prop where
  distinct : (entries.map (·.1)).Nodup
  readable : ∀ m ∈ entries, ∃ x, read m.1 m.2 = .ok x
  get?_iff : ∀ k x, t.get? k = some x ↔ ∃ a, (k, a) ∈ entries ∧ read k a = .ok x

namespace Table

variable {read : κ → α → Except ε β} {entries others : List (κ × α)} {t s : Table κ β} {k : κ}
  {a : α} {x : β}

theorem Collects.nil : Collects read [] (.empty : Table κ β) :=
  ⟨List.nodup_nil, List.forall_mem_nil _, fun k x => by simp⟩

theorem Collects.contains_iff (h : Collects read entries t) :
    t.contains k = true ↔ k ∈ entries.map (·.1) := by
  rw [contains_eq_true_iff, List.mem_map]
  constructor
  · rintro ⟨x, hx⟩
    obtain ⟨a, ha, -⟩ := (h.get?_iff k x).1 hx
    exact ⟨(k, a), ha, rfl⟩
  · rintro ⟨⟨l, a⟩, ha, rfl⟩
    obtain ⟨x, hx⟩ := h.readable _ ha
    exact ⟨x, (h.get?_iff l x).2 ⟨a, ha, hx⟩⟩

theorem Collects.get?_eq_none_iff (h : Collects read entries t) :
    t.get? k = none ↔ k ∉ entries.map (·.1) := by
  rw [← contains_eq_false_iff, ← h.contains_iff, Bool.not_eq_true]

/-- **The order of the entries does not matter.** -/
theorem Collects.perm (h : Collects read entries t) (hp : entries.Perm others) :
    Collects read others t := by
  refine ⟨(hp.map _).nodup_iff.1 h.distinct, ?_, ?_⟩
  · intro m hm
    exact h.readable m (hp.mem_iff.2 hm)
  · intro k x
    simp only [h.get?_iff, hp.mem_iff]

variable [Std.TransOrd κ] [Std.LawfulEqOrd κ]

/-- One entry more, under a key of its own. -/
theorem Collects.insert (h : Collects read entries t) (hk : t.contains k = false)
    (hx : read k a = .ok x) : Collects read (entries ++ [(k, a)]) (t.insert k x) := by
  have hnew : k ∉ entries.map (·.1) := by
    rw [← h.contains_iff, hk]
    exact Bool.false_ne_true
  refine ⟨?_, ?_, ?_⟩
  · rw [List.map_append, List.nodup_append]
    refine ⟨h.distinct, List.pairwise_singleton _ k, ?_⟩
    intro l hl m hm
    obtain rfl : m = k := List.mem_singleton.1 hm
    exact fun he => hnew (he ▸ hl)
  · rw [List.forall_mem_append, List.forall_mem_singleton]
    exact ⟨h.readable, x, hx⟩
  · intro l y
    rw [get?_insert]
    simp only [List.mem_append, List.mem_singleton, Prod.mk.injEq]
    by_cases hl : l = k
    · subst hl
      rw [if_pos rfl, Option.some.injEq]
      constructor
      · rintro rfl
        exact ⟨a, .inr ⟨rfl, rfl⟩, hx⟩
      · rintro ⟨b, hb | ⟨-, rfl⟩, hy⟩
        · exact absurd (List.mem_map_of_mem hb) hnew
        · exact Except.ok.inj (hx.symm.trans hy)
    · rw [if_neg hl, h.get?_iff]
      simp only [hl, false_and, or_false]

/-- The entries determine the table. -/
theorem Collects.unique (hs : Collects read entries s) (ht : Collects read entries t) : s = t := by
  apply ext_get?
  intro k
  rw [Option.ext_iff]
  intro x
  rw [hs.get?_iff, ht.get?_iff]

/-- **Any entries can be collected** that can be read and have keys of their own. -/
theorem exists_collects (distinct : (entries.map (·.1)).Nodup)
    (readable : ∀ m ∈ entries, ∃ x, read m.1 m.2 = .ok x) : ∃ t, Collects read entries t := by
  induction entries with
  | nil => exact ⟨.empty, .nil⟩
  | cons m entries ih =>
    obtain ⟨k, a⟩ := m
    rw [List.map_cons, List.nodup_cons] at distinct
    rw [List.forall_mem_cons] at readable
    obtain ⟨t, ht⟩ := ih distinct.2 readable.2
    obtain ⟨x, hx⟩ := readable.1
    have hk : t.contains k = false := contains_eq_false_iff.2 (ht.get?_eq_none_iff.2 distinct.1)
    exact ⟨t.insert k x, (ht.insert hk hx).perm List.perm_append_comm⟩

theorem Collects.front (h : Collects read (entries ++ others) t) :
    ∃ s, Collects read entries s := by
  have distinct := h.distinct
  have readable := h.readable
  rw [List.map_append, List.nodup_append] at distinct
  rw [List.forall_mem_append] at readable
  exact exists_collects distinct.1 readable.1

/-- **What one entry more makes of a table.** -/
theorem Collects.concat_iff (h : Collects read entries s) :
    Collects read (entries ++ [(k, a)]) t ↔
      s.contains k = false ∧ ∃ x, read k a = .ok x ∧ t = s.insert k x := by
  constructor
  · intro ht
    have hk : s.contains k = false := by
      rw [contains_eq_false_iff, h.get?_eq_none_iff]
      intro hmem
      have distinct := ht.distinct
      rw [List.map_append, List.nodup_append] at distinct
      exact distinct.2.2 k hmem k List.mem_cons_self rfl
    obtain ⟨x, hx⟩ := ht.readable (k, a) (List.mem_append_right _ List.mem_cons_self)
    exact ⟨hk, x, hx, ht.unique (h.insert hk hx)⟩
  · rintro ⟨hk, x, hx, rfl⟩
    exact h.insert hk hx

omit [Std.TransOrd κ] in
/-- The table has as many entries as were put into it. -/
theorem Collects.size_eq (h : Collects read entries t) : t.size = entries.length := by
  have hkeys : t.keys.Perm (entries.map (·.1)) := by
    rw [List.perm_ext_iff_of_nodup t.nodup_keys h.distinct]
    intro k
    rw [← h.contains_iff, contains_eq_true_iff]
    unfold keys
    rw [List.mem_map]
    constructor
    · rintro ⟨⟨l, x⟩, hx, rfl⟩
      exact ⟨x, get?_eq_some_iff.2 hx⟩
    · rintro ⟨x, hx⟩
      exact ⟨(k, x), get?_eq_some_iff.1 hx, rfl⟩
  have hlength := hkeys.length_eq
  unfold keys at hlength
  rw [List.length_map, List.length_map] at hlength
  exact hlength

end Table

end Tables

end AccessGuard
