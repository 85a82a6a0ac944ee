/-!
# Tables

Finite maps, kept as the list of their entries by ascending key. The list is determined by
what the table holds, so equality of tables is equality of look-ups.

* `Table.get?_insert`: an insertion is seen under its own key and nowhere else.
* `Table.ext_get?`: tables with the same look-ups are equal.
* `Table.get?_eq_some_iff`: what is looked up are the entries.
* `Table.get?_ofList`: of several entries under one key, the last is found.
-/

namespace AccessGuard

variable {κ α : Type} [Ord κ]

/-- Entries with strictly ascending keys. -/
def Ascending (entries : List (κ × α)) : Prop :=
  entries.Pairwise fun x y => compare x.1 y.1 = .lt

instance (entries : List (κ × α)) : Decidable (Ascending entries) :=
  inferInstanceAs (Decidable (List.Pairwise _ _))

/-- Puts an entry into its place and drops an earlier entry under the same key. -/
def insertEntry (k : κ) (x : α) : List (κ × α) → List (κ × α)
  | [] => [(k, x)]
  | (l, y) :: rest =>
    match compare k l with
    | .lt => (k, x) :: (l, y) :: rest
    | .eq => (k, x) :: rest
    | .gt => (l, y) :: insertEntry k x rest

/-- Entries in any order, by ascending key; under one key the last entry is kept. -/
def sortEntries (entries : List (κ × α)) : List (κ × α) :=
  entries.foldl (fun sorted e => insertEntry e.1 e.2 sorted) []

theorem mem_insertEntry {k : κ} {x : α} {entries : List (κ × α)} {e : κ × α}
    (h : e ∈ insertEntry k x entries) : e = (k, x) ∨ e ∈ entries := by
  induction entries with
  | nil => exact .inl (List.mem_singleton.1 h)
  | cons d rest ih =>
    obtain ⟨l, y⟩ := d
    rw [insertEntry] at h
    split at h <;> simp only [List.mem_cons] at h ⊢ <;> grind

section Laws

variable [Std.TransOrd κ]

theorem Ascending.insertEntry {entries : List (κ × α)} (h : Ascending entries) (k : κ) (x : α) :
    Ascending (insertEntry k x entries) := by
  induction entries with
  | nil => simp [AccessGuard.insertEntry, Ascending]
  | cons e rest ih =>
    obtain ⟨l, y⟩ := e
    obtain ⟨hl, hrest⟩ := List.pairwise_cons.1 h
    rw [AccessGuard.insertEntry]
    split
    case h_1 hk =>
      refine List.pairwise_cons.2 ⟨fun e he => ?_, h⟩
      rcases List.mem_cons.1 he with rfl | he
      · exact hk
      · exact Std.TransCmp.lt_trans hk (hl e he)
    case h_2 hk =>
      exact List.pairwise_cons.2 ⟨fun e he => Std.TransCmp.lt_of_eq_of_lt hk (hl e he), hrest⟩
    case h_3 hk =>
      refine List.pairwise_cons.2 ⟨fun e he => ?_, ih hrest⟩
      rcases mem_insertEntry he with rfl | he
      · exact Std.OrientedCmp.lt_of_gt hk
      · exact hl e he

theorem ascending_sortEntries (entries : List (κ × α)) : Ascending (sortEntries entries) := by
  suffices ∀ sorted, Ascending sorted →
      Ascending (entries.foldl (fun sorted e => AccessGuard.insertEntry e.1 e.2 sorted) sorted) from
    this [] List.Pairwise.nil
  induction entries with
  | nil => exact fun _ h => h
  | cons e rest ih => exact fun sorted h => ih _ (h.insertEntry e.1 e.2)

theorem insertEntry_of_above {k : κ} {x : α} {entries : List (κ × α)}
    (h : ∀ e ∈ entries, compare e.1 k = .lt) : insertEntry k x entries = entries ++ [(k, x)] := by
  induction entries with
  | nil => rfl
  | cons e rest ih =>
    obtain ⟨l, y⟩ := e
    have hl : compare k l = .gt := Std.OrientedCmp.gt_of_lt (h (l, y) List.mem_cons_self)
    have hrest : insertEntry k x rest = rest ++ [(k, x)] :=
      ih fun e he => h e (List.mem_cons_of_mem _ he)
    rw [insertEntry, hl]
    simp only [hrest, List.cons_append]

/-- What is in order already stays as it is. -/
theorem sortEntries_of_ascending {entries : List (κ × α)} (h : Ascending entries) :
    sortEntries entries = entries := by
  suffices ∀ sorted, Ascending (sorted ++ entries) →
      entries.foldl (fun sorted e => AccessGuard.insertEntry e.1 e.2 sorted) sorted =
        sorted ++ entries from this [] h
  clear h
  induction entries with
  | nil => exact fun sorted _ => (List.append_nil sorted).symm
  | cons e rest ih =>
    intro sorted h
    have habove : ∀ d ∈ sorted, compare d.1 e.1 = .lt := fun d hd =>
      (List.pairwise_append.1 h).2.2 d hd e List.mem_cons_self
    have hsplit : sorted ++ e :: rest = sorted ++ [e] ++ rest := by simp
    rw [List.foldl_cons, insertEntry_of_above habove, hsplit]
    exact ih (sorted ++ [e]) (hsplit ▸ h)

variable [Std.LawfulEqOrd κ] [DecidableEq κ]

omit [Ord κ] [Std.TransOrd κ] [Std.LawfulEqOrd κ] in
theorem lookup_cons_eq_ite (k l : κ) (x : α) (entries : List (κ × α)) :
    ((k, x) :: entries).lookup l = if l = k then some x else entries.lookup l := by
  by_cases h : l = k
  · simp [h]
  · rw [List.lookup_cons, beq_eq_false_iff_ne.2 h, if_neg h]

omit [Ord κ] [Std.TransOrd κ] [Std.LawfulEqOrd κ] in
theorem mem_of_lookup_eq_some {k : κ} {x : α} {entries : List (κ × α)}
    (h : entries.lookup k = some x) : (k, x) ∈ entries := by
  obtain ⟨before, after, he, -⟩ := List.lookup_eq_some_iff.1 h
  rw [he]
  exact List.mem_append_right before List.mem_cons_self

omit [Std.TransOrd κ] in
theorem lookup_insertEntry (k l : κ) (x : α) (entries : List (κ × α)) :
    (insertEntry k x entries).lookup l = if l = k then some x else entries.lookup l := by
  induction entries with
  | nil => rw [insertEntry, lookup_cons_eq_ite]
  | cons e rest ih =>
    obtain ⟨m, z⟩ := e
    rw [insertEntry]
    split
    case h_1 => rw [lookup_cons_eq_ite]
    case h_2 hk =>
      obtain rfl := Std.compare_eq_iff_eq.1 hk
      rw [lookup_cons_eq_ite, lookup_cons_eq_ite]
      split <;> rfl
    case h_3 hk =>
      have hne : k ≠ m := fun h => by simp [h, Std.compare_self] at hk
      rw [lookup_cons_eq_ite, lookup_cons_eq_ite, ih]
      by_cases h : l = m
      · simp [h, Ne.symm hne]
      · simp [h]

omit [Std.TransOrd κ] in
/-- A key below all others is not found among them. -/
theorem lookup_eq_none_of_below {k : κ} {entries : List (κ × α)}
    (h : ∀ e ∈ entries, compare k e.1 = .lt) : entries.lookup k = none := by
  rw [List.lookup_eq_none_iff]
  intro e he
  rw [bne_iff_ne]
  rintro rfl
  simpa [Std.compare_self] using h e he

/-- Ascending entries are determined by their look-ups. -/
theorem Ascending.eq_of_lookup {s t : List (κ × α)} (hs : Ascending s) (ht : Ascending t)
    (h : ∀ k, s.lookup k = t.lookup k) : s = t := by
  induction s generalizing t with
  | nil =>
    cases t with
    | nil => rfl
    | cons e t => have := (h e.1).trans (lookup_cons_eq_ite e.1 e.1 e.2 t); simp at this
  | cons e s ih =>
    cases t with
    | nil => have := (h e.1).symm.trans (lookup_cons_eq_ite e.1 e.1 e.2 s); simp at this
    | cons f t =>
      obtain ⟨k, x⟩ := e
      obtain ⟨l, y⟩ := f
      obtain ⟨hks, hs⟩ := List.pairwise_cons.1 hs
      obtain ⟨hlt, ht'⟩ := List.pairwise_cons.1 ht
      -- the least keys agree: otherwise the smaller one is missing on the other side
      have hkl : k = l := by
        cases hc : compare k l with
        | eq => exact Std.compare_eq_iff_eq.1 hc
        | lt =>
          have below : ∀ e ∈ (l, y) :: t, compare k e.1 = .lt := by
            rintro e (_ | ⟨_, he⟩)
            · exact hc
            · exact Std.TransCmp.lt_trans hc (hlt e he)
          have hk := h k
          rw [lookup_eq_none_of_below below, lookup_cons_eq_ite] at hk
          simp at hk
        | gt =>
          have hc := Std.OrientedCmp.lt_of_gt hc
          have below : ∀ e ∈ (k, x) :: s, compare l e.1 = .lt := by
            rintro e (_ | ⟨_, he⟩)
            · exact hc
            · exact Std.TransCmp.lt_trans hc (hks e he)
          have hl := h l
          rw [lookup_eq_none_of_below below, lookup_cons_eq_ite] at hl
          simp at hl
      subst hkl
      have hxy := h k
      simp only [lookup_cons_eq_ite, if_true, Option.some.injEq] at hxy
      subst hxy
      congr 1
      refine ih hs ht' fun m => ?_
      by_cases hm : m = k
      · rw [hm, lookup_eq_none_of_below hks, lookup_eq_none_of_below hlt]
      · simpa [lookup_cons_eq_ite, hm] using h m

omit [DecidableEq κ] in
/-- An entry stands behind exactly those with smaller keys. -/
theorem Ascending.exists_split_iff {entries : List (κ × α)} (h : Ascending entries)
    {P Q : κ × α → Prop} :
    (∃ before m after, entries = before ++ m :: after ∧ (∀ n ∈ before, P n) ∧ Q m) ↔
      ∃ m ∈ entries, (∀ n ∈ entries, compare n.1 m.1 = .lt → P n) ∧ Q m := by
  constructor
  · rintro ⟨before, m, after, rfl, hbefore, hm⟩
    obtain ⟨-, hafter, -⟩ := List.pairwise_append.1 h
    refine ⟨m, List.mem_append_right _ List.mem_cons_self, ?_, hm⟩
    intro n hn hlt
    rcases List.mem_append.1 hn with hn | hn
    · exact hbefore n hn
    · rcases List.mem_cons.1 hn with rfl | hn
      · simp [Std.compare_self] at hlt
      · have hgt : compare m.1 n.1 = .lt := (List.pairwise_cons.1 hafter).1 n hn
        have := Std.TransCmp.lt_trans hlt hgt
        simp [Std.compare_self] at this
  · rintro ⟨m, hm, hsmaller, hq⟩
    obtain ⟨before, after, rfl⟩ := List.append_of_mem hm
    refine ⟨before, m, after, rfl, ?_, hq⟩
    intro n hn
    have hlt := (List.pairwise_append.1 h).2.2 n hn m List.mem_cons_self
    exact hsmaller n (List.mem_append_left _ hn) hlt

end Laws

/-- A finite map from `κ` to `α`. -/
@[ext] structure Table (κ α : Type) [Ord κ] where
  entries : List (κ × α)
  ascending : Ascending entries
deriving DecidableEq

namespace Table

/-- Nothing is held. -/
def empty : Table κ α := ⟨[], List.Pairwise.nil⟩

instance : Inhabited (Table κ α) := ⟨empty⟩

/-- The number of keys. -/
def size (t : Table κ α) : Nat := t.entries.length

/-- Is nothing held? -/
def isEmpty (t : Table κ α) : Bool := t.entries.isEmpty

/-- The keys in ascending order. -/
def keys (t : Table κ α) : List κ := t.entries.map (·.1)

/-- What is held, by ascending key. -/
def values (t : Table κ α) : List α := t.entries.map (·.2)

/-- What is held under a key. -/
def get? [DecidableEq κ] (t : Table κ α) (k : κ) : Option α := t.entries.lookup k

/-- Is something held under a key? -/
def contains [DecidableEq κ] (t : Table κ α) (k : κ) : Bool := (t.get? k).isSome

@[simp] theorem get?_empty [DecidableEq κ] (k : κ) : (empty : Table κ α).get? k = none := rfl

theorem contains_eq_true_iff [DecidableEq κ] {t : Table κ α} {k : κ} :
    t.contains k = true ↔ ∃ x, t.get? k = some x := Option.isSome_iff_exists

theorem contains_eq_false_iff [DecidableEq κ] {t : Table κ α} {k : κ} :
    t.contains k = false ↔ t.get? k = none := by
  rw [contains, Option.isSome_eq_false_iff, Option.isNone_iff_eq_none]

theorem mem_entries_of_get? [DecidableEq κ] {t : Table κ α} {k : κ} {x : α}
    (h : t.get? k = some x) : (k, x) ∈ t.entries := mem_of_lookup_eq_some h

variable [Std.TransOrd κ]

/-- Sets what is held under a key. -/
def insert (t : Table κ α) (k : κ) (x : α) : Table κ α :=
  ⟨insertEntry k x t.entries, t.ascending.insertEntry k x⟩

/-- What holds of the new entry and of all entries before holds of all entries after. -/
theorem forall_mem_insert {P : κ × α → Prop} {t : Table κ α} {k : κ} {x : α} (hnew : P (k, x))
    (h : ∀ e ∈ t.entries, P e) : ∀ e ∈ (t.insert k x).entries, P e := by
  intro e he
  rcases mem_insertEntry he with rfl | he
  · exact hnew
  · exact h e he

/-- Of several entries under one key, the last counts. -/
def ofList (entries : List (κ × α)) : Table κ α :=
  ⟨sortEntries entries, ascending_sortEntries entries⟩

variable [DecidableEq κ] [Std.LawfulEqOrd κ]

theorem get?_insert (t : Table κ α) (k l : κ) (x : α) :
    (t.insert k x).get? l = if l = k then some x else t.get? l :=
  lookup_insertEntry k l x t.entries

theorem ext_get? {s t : Table κ α} (h : ∀ k, s.get? k = t.get? k) : s = t :=
  Table.ext (s.ascending.eq_of_lookup t.ascending h)

/-- Of several entries under one key, the last is found. -/
theorem get?_ofList (entries : List (κ × α)) (k : κ) :
    (ofList entries).get? k = entries.reverse.lookup k := by
  suffices ∀ sorted : List (κ × α),
      (entries.foldl (fun sorted e => insertEntry e.1 e.2 sorted) sorted).lookup k =
        (entries.reverse.lookup k).or (sorted.lookup k) from
    (this []).trans Option.or_none
  induction entries with
  | nil => intro sorted; rfl
  | cons e rest ih =>
    intro sorted
    rw [List.foldl_cons, ih, List.reverse_cons, List.lookup_append, lookup_insertEntry,
      lookup_cons_eq_ite, Option.or_assoc]
    by_cases hk : k = e.1 <;> simp [hk]

omit [Std.TransOrd κ] in
theorem get?_eq_some_iff {t : Table κ α} {k : κ} {x : α} :
    t.get? k = some x ↔ (k, x) ∈ t.entries := by
  refine ⟨mem_entries_of_get?, fun h => ?_⟩
  obtain ⟨before, after, he⟩ := List.append_of_mem h
  refine List.lookup_eq_some_iff.2 ⟨before, after, he, ?_⟩
  -- what stands before an entry has a smaller key
  intro e hmem
  have hasc := t.ascending
  rw [he] at hasc
  have hlt : compare e.1 k = .lt := (List.pairwise_append.1 hasc).2.2 e hmem _ List.mem_cons_self
  rw [bne_iff_ne]
  rintro rfl
  simp [Std.compare_self] at hlt

/-- A table holds no entry that it was not made of. -/
theorem mem_of_mem_ofList {entries : List (κ × α)} {e : κ × α}
    (h : e ∈ (ofList entries).entries) : e ∈ entries := by
  have hlast : entries.reverse.lookup e.1 = some e.2 := by
    rw [← get?_ofList]
    exact get?_eq_some_iff.2 h
  exact List.mem_reverse.1 (mem_of_lookup_eq_some hlast)

/-- Entries with the keys and values of a table make the table, whatever their order. -/
theorem ofList_of_perm {entries : List (κ × α)} {t : Table κ α} (h : entries.Perm t.entries) :
    ofList entries = t := by
  apply ext_get?
  intro k
  cases hget : (ofList entries).get? k with
  | some x =>
    have hmem := mem_of_mem_ofList (get?_eq_some_iff.1 hget)
    exact (get?_eq_some_iff.2 (h.mem_iff.1 hmem)).symm
  | none =>
    rw [get?_ofList, List.lookup_eq_none_iff] at hget
    symm
    rw [Option.eq_none_iff_forall_ne_some]
    intro x hx
    have hmem := List.mem_reverse.2 (h.mem_iff.2 (get?_eq_some_iff.1 hx))
    simpa using hget _ hmem

omit [Std.TransOrd κ] [DecidableEq κ] in
theorem nodup_keys (t : Table κ α) : t.keys.Nodup := by
  have hasc : t.keys.Pairwise fun k l => compare k l = .lt := List.pairwise_map.2 t.ascending
  refine hasc.imp ?_
  rintro k l h rfl
  simp [Std.compare_self] at h

end Table

end AccessGuard
