/-!
# Cutting a text at a separator

* `cutAt_eq_some`: the parts before and after the first separator.
* `cutAt_eq_none`: a text without the separator is not cut.
-/

namespace AccessGuard

/-- What stands before and after the first occurrence of a separator. -/
def cutAt (sep : Char) (cs : List Char) : Option (List Char × List Char) :=
  match cs.dropWhile (· != sep) with
  | [] => none
  | _ :: after => some (cs.takeWhile (· != sep), after)

theorem cutAt_cons_of_ne {sep c : Char} (hc : c ≠ sep) (cs : List Char) :
    cutAt sep (c :: cs) = (cutAt sep cs).map fun (before, after) => (c :: before, after) := by
  simp only [cutAt, List.dropWhile_cons, List.takeWhile_cons, bne_iff_ne, ne_eq, hc,
    not_false_eq_true, if_true]
  split <;> rfl

theorem cutAt_eq_none {sep : Char} {cs : List Char} : cutAt sep cs = none ↔ sep ∉ cs := by
  induction cs with
  | nil => simp [cutAt]
  | cons c cs ih =>
    by_cases hc : c = sep
    · simp [cutAt, hc]
    · rw [List.mem_cons, not_or, ← ih, cutAt_cons_of_ne hc]
      simp [Ne.symm hc]

theorem cutAt_eq_some {sep : Char} {cs before after : List Char} :
    cutAt sep cs = some (before, after) ↔ cs = before ++ sep :: after ∧ sep ∉ before := by
  induction cs generalizing before with
  | nil => simp [cutAt]
  | cons c cs ih =>
    by_cases hc : c = sep
    · subst hc
      cases before with
      | nil => simp [cutAt, eq_comm]
      | cons d before =>
        simp only [cutAt, List.dropWhile_cons, bne_self_eq_false, Bool.false_eq_true, if_false,
          List.takeWhile_cons, List.cons_append, List.cons.injEq, List.mem_cons, not_or]
        exact ⟨nofun, fun h => absurd h.1.1 h.2.1⟩
    · rw [cutAt_cons_of_ne hc]
      cases before with
      | nil => simp [hc]
      | cons d before =>
        simp only [Option.map_eq_some_iff, Prod.mk.injEq, Prod.exists, List.cons.injEq,
          List.cons_append, List.mem_cons, not_or]
        constructor
        · rintro ⟨b, a, h, ⟨rfl, rfl⟩, rfl⟩
          obtain ⟨h₁, h₂⟩ := ih.1 h
          exact ⟨⟨rfl, h₁⟩, Ne.symm hc, h₂⟩
        · rintro ⟨⟨rfl, h₁⟩, -, h₂⟩
          exact ⟨before, after, ih.2 ⟨h₁, h₂⟩, ⟨rfl, rfl⟩, rfl⟩

end AccessGuard
