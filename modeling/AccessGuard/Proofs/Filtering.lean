import AccessGuard.Proofs.Stages

/-!
# Filtering in place

A collection is filtered in two passes: the first one sets a flag for every element, the second
one takes the flags one by one. If the first pass fails the collection stays as it is. Otherwise
the elements stay whose projection is retained, so filtering is taking a part of a list by a test
of its elements, and obeys the laws of that.

* `filterInPlace_cases`: both ends of filtering, for all sets that may be retained.
* `filterInPlace_filterInPlace`: filtering by one set and then by another one.
* `filterInPlace_exact`: what filtering does, how it fails, and its laws.
-/

namespace AccessGuard

namespace Selector

variable {s : Selector} {items : List Value} {a b candidates : CandidateSet}

theorem filterInPlace_of_fault {e : EvaluationError} (h : s.project items = .error e)
    (retained : CandidateSet) : s.filterInPlace items retained = ⟨.error e, items⟩ := by
  have hprojections : s.projections items = .error e :=
    projections_eq_error_iff.2 (project_eq_error_iff.1 h)
  unfold filterInPlace flags
  rw [hprojections]
  rfl

/-- **Filtering ends as the projection of the collection does**, whatever is retained: it fails for
the same reason and changes nothing, or it leaves the elements whose projection is retained. -/
theorem filterInPlace_cases (s : Selector) (items : List Value) :
    (∃ e, s.project items = .error e ∧
      ∀ retained, s.filterInPlace items retained = ⟨.error e, items⟩) ∨
    ∃ candidates, s.project items = .ok candidates ∧ ∀ retained, s.filterInPlace items retained =
      ⟨.ok (items.length - (items.filter (s.retains retained)).length),
        items.filter (s.retains retained)⟩ := by
  cases h : s.project items with
  | error e => left; exact ⟨e, rfl, filterInPlace_of_fault h⟩
  | ok candidates => right; exact ⟨candidates, rfl, fun _ => filterInPlace_of_project h⟩

/-- Elements that a filter leaves can be projected if all elements can. -/
theorem filterInPlace_of_filtered (h : s.project items = .ok candidates) :
    s.filterInPlace (items.filter (s.retains a)) b =
      ⟨.ok ((items.filter (s.retains a)).length -
          (items.filter (s.retains (a.retain b.contains))).length),
        items.filter (s.retains (a.retain b.contains))⟩ := by
  have hboth : (items.filter (s.retains a)).filter (s.retains b) =
      items.filter (s.retains (a.retain b.contains)) := by
    rw [List.filter_filter]
    apply List.filter_congr
    intro v _
    rw [retains_retain, Bool.and_comm]
  rw [filterInPlace_of_project (project_filter h), hboth]

/-- **Filtering twice** leaves what filtering by the common members leaves, also where it fails. -/
theorem filterInPlace_filterInPlace (s : Selector) (items : List Value) (a b : CandidateSet) :
    (s.filterInPlace (s.filterInPlace items a).items b).items =
      (s.filterInPlace items (a.retain b.contains)).items := by
  rcases filterInPlace_cases s items with ⟨e, -, hfails⟩ | ⟨candidates, h, hfilters⟩
  · rw [hfails, hfails, hfails]
  · rw [hfilters, hfilters, filterInPlace_of_filtered h]

theorem removed_eq_error_iff {e : EvaluationError} :
    (s.filterInPlace items a).removed = .error e ↔ s.project items = .error e := by
  rcases filterInPlace_cases s items with ⟨e', h, hfails⟩ | ⟨candidates, h, hfilters⟩
  · rw [hfails, h]; simp
  · rw [hfilters, h]; simp

theorem removed_eq_ok_iff {n : Nat} :
    (s.filterInPlace items a).removed = .ok n ↔ (∃ candidates, s.project items = .ok candidates) ∧
      n = items.length - (items.filter (s.retains a)).length := by
  rcases filterInPlace_cases s items with ⟨e', h, hfails⟩ | ⟨candidates, h, hfilters⟩
  · rw [hfails, h]; simp
  · rw [hfilters, h]; simp [eq_comm]

/-- Filtering fails where the selector leads nowhere from some element. -/
theorem exists_removed_eq_error_iff :
    (∃ e, (s.filterInPlace items a).removed = .error e) ↔
      ∃ v ∈ items, ∃ e, s.resolve v = .error e := by
  simp only [removed_eq_error_iff, project_eq_error_iff, exists_firstFault_iff]

/-- **The laws of a filter that does not fail**: what it leaves, how many are gone, and what filters
after it do. -/
theorem filterInPlace_of_removed {n : Nat} (b : CandidateSet)
    (hn : (s.filterInPlace items a).removed = .ok n) :
    let left := (s.filterInPlace items a).items
    left = items.filter (s.retains a) ∧ n + left.length = items.length ∧
    (∃ candidates, s.project items = .ok candidates ∧
      s.project left = .ok (candidates.retain a.contains)) ∧
    (∃ m, (s.filterInPlace left b).removed = .ok m ∧
      (s.filterInPlace items (a.retain b.contains)).removed = .ok (n + m)) ∧
    s.filterInPlace left a = ⟨.ok 0, left⟩ := by
  obtain ⟨⟨candidates, h⟩, rfl⟩ := removed_eq_ok_iff.1 hn
  have hlength := List.length_filter_le (s.retains a) items
  rw [filterInPlace_of_project h]
  dsimp only
  rw [filterInPlace_of_filtered h, filterInPlace_of_filtered h, filterInPlace_of_project h]
  have hself : a.retain a.contains = a := CandidateSet.ext_mem fun v => by simp
  -- what both sets retain is a part of what the first one retains
  have hsub : (items.filter (s.retains (a.retain b.contains))).length ≤
      (items.filter (s.retains a)).length := by
    rw [← List.countP_eq_length_filter, ← List.countP_eq_length_filter]
    apply List.countP_mono_left
    intro v _ hv
    rw [retains_retain, Bool.and_eq_true] at hv
    exact hv.1
  refine ⟨rfl, Nat.sub_add_cancel hlength, ⟨candidates, h, ?_⟩, ⟨_, rfl, ?_⟩, ?_⟩
  · rw [project_filter h, CandidateSet.retain_contains_comm]
  · rw [Nat.sub_add_sub_cancel hlength hsub]
  · rw [hself, Nat.sub_self]

/-- **Filtering is exact.** It fails where the selector leads nowhere from an element, with the
error of the first such element, and then changes nothing; a projection fails in the same cases and
for the same reason. Otherwise the elements stay whose projection is retained, the others are
counted, and the projection loses what is not retained. Two filters may be exchanged, and do what
the filter by their common members does; the same filter again removes nothing. -/
theorem filterInPlace_exact (s : Selector) (items : List Value) (a b : CandidateSet) :
    let filtered := s.filterInPlace items a
    ((∃ e, filtered.removed = .error e) ↔ ∃ v ∈ items, ∃ e, s.resolve v = .error e) ∧
    (∀ e, filtered.removed = .error e ↔ s.FirstFault items e) ∧
    (∀ e, filtered.removed = .error e ↔ s.project items = .error e) ∧
    (∀ e, filtered.removed = .error e → filtered.items = items) ∧
    (∀ n, filtered.removed = .ok n → filtered.items = items.filter (s.retains a) ∧
      n + filtered.items.length = items.length ∧
      (∃ candidates, s.project items = .ok candidates ∧
        s.project filtered.items = .ok (candidates.retain a.contains)) ∧
      (∃ m, (s.filterInPlace filtered.items b).removed = .ok m ∧
        (s.filterInPlace items (a.retain b.contains)).removed = .ok (n + m)) ∧
      s.filterInPlace filtered.items a = ⟨.ok 0, filtered.items⟩) ∧
    (s.filterInPlace filtered.items b).items =
      (s.filterInPlace (s.filterInPlace items b).items a).items ∧
    (s.filterInPlace filtered.items b).items =
      (s.filterInPlace items (a.retain b.contains)).items := by
  dsimp only
  refine ⟨exists_removed_eq_error_iff, ?_, fun e => removed_eq_error_iff, ?_, ?_, ?_, ?_⟩
  · intro e
    rw [removed_eq_error_iff, project_eq_error_iff]
  · intro e he
    rw [filterInPlace_of_fault (removed_eq_error_iff.1 he)]
  · intro n hn
    exact filterInPlace_of_removed b hn
  · rw [filterInPlace_filterInPlace, filterInPlace_filterInPlace,
      CandidateSet.retain_contains_comm]
  · exact filterInPlace_filterInPlace s items a b

/-- Of three cases the one of the south is taken out. Where a case has no county none is. -/
theorem filterInPlace_exact_sample :
    let s := (Sample.byCounty "cases").selector
    let cases := [Sample.case "north", Sample.case "south", Sample.case "north"]
    let incomplete := cases ++ [.record []]
    let north := CandidateSet.ofList [.str "north"]
    (s.filterInPlace cases north).removed = .ok 1 ∧
      s.filterInPlace (s.filterInPlace cases north).items north =
        ⟨.ok 0, (s.filterInPlace cases north).items⟩ ∧
      ∃ e, s.FirstFault incomplete e ∧ (s.filterInPlace incomplete north).items = incomplete := by
  intro s cases incomplete north
  have hremoved : (s.filterInPlace cases north).removed = .ok 1 := rfl
  have hfails : (s.filterInPlace incomplete north).removed =
      .error ⟨"cases.county", .missingField "county"⟩ := rfl
  obtain ⟨-, -, -, -, hlaws, -⟩ := filterInPlace_exact s cases north north
  obtain ⟨-, hfault, -, huntouched, -⟩ := filterInPlace_exact s incomplete north north
  obtain ⟨-, -, -, -, hagain⟩ := hlaws 1 hremoved
  exact ⟨hremoved, hagain, _, (hfault _).1 hfails, huntouched _ hfails⟩

end Selector

end AccessGuard
