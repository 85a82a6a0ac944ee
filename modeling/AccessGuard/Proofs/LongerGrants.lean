import AccessGuard.Proofs.GrantSpelling

/-!
# Longer grants

A grant with further parts behind it is read as the parts of both texts, one list after the other.
Parts that were left off before accepted everything, so a further part can only refuse: it is
matched against the component at its place, or against none if the parts before it have taken all
components. Where a surplus part stands before it already, that part decides alone.

* `readParts?_joined`: the parts of two texts with a colon between them.
* `acceptAll_append`, `zip_append_drop`: what further parts are matched against.
* `implies_joined_iff`, `coversAction_joined_iff`: what further parts take away.
* `joined_narrows`: further parts never add anything.
-/

namespace AccessGuard

/-! ## Further parts -/

/-- **Two texts with a colon between them** are read as the parts of both. -/
theorem readParts?_joined (cs ds : List Char) :
    readParts? (cs ++ ':' :: ds) =
      (readParts? cs).bind fun ps => (readParts? ds).map fun qs => ps ++ qs := by
  unfold readParts?
  rw [List.splitOn_append_cons_self, List.mapM_append]
  cases (cs.splitOn ':').mapM GrantPart.read? with
  | none => rfl
  | some ps => cases (ds.splitOn ':').mapM GrantPart.read? <;> rfl

/-- **Further parts** are matched against the components that the parts before them have left. A
surplus part leaves none, and is the last to be looked at. -/
theorem acceptAll_append (ps qs : List GrantPart) (cs : List (Option String)) :
    acceptAll (ps ++ qs) cs = true ↔ acceptAll ps cs = true ∧
      (ps.length ≤ cs.length → acceptAll qs (cs.drop ps.length) = true) := by
  induction ps generalizing cs with
  | nil => simp [acceptAll]
  | cons p ps ih =>
    cases cs with
    | nil => simp [acceptAll]
    | cons c cs => simp [acceptAll, ih, and_assoc]

/-- Two lists of parts have their components one after the other. -/
theorem zip_append_drop {α β : Type} (ps qs : List α) (cs : List β) :
    (ps ++ qs).zip cs = ps.zip cs ++ qs.zip (cs.drop ps.length) := by
  induction ps generalizing cs with
  | nil => simp
  | cons p ps ih =>
    cases cs with
    | nil => simp
    | cons c cs => simp [ih]

namespace Grant

variable {g t joined : Grant} {text further domain action : String}

theorem toList_joined (text further : String) :
    (text ++ ":" ++ further).toList = text.toList ++ ':' :: further.toList := by
  rw [String.toList_append, String.toList_append, List.append_assoc]
  rfl

theorem parts_joined (hj : joined.text = g.text ++ ":" ++ t.text) :
    joined.parts = g.parts ++ t.parts := by
  have hread := joined.parts_eq
  rw [hj, toList_joined, readParts?_joined, g.parts_eq, t.parts_eq] at hread
  exact (Option.some.inj hread).symm

/-- **A longer text is a grant** if both of its parts are. -/
theorem exists_parse_joined_iff : (∃ joined, parse (text ++ ":" ++ further) = .ok joined) ↔
    (∃ g, parse text = .ok g) ∧ ∃ t, parse further = .ok t := by
  rw [exists_parse_iff, exists_parse_iff, exists_parse_iff, toList_joined, readParts?_joined]
  simp only [Option.bind_eq_some_iff, Option.map_eq_some_iff]
  constructor
  · rintro ⟨_, ps, hps, qs, hqs, -⟩
    exact ⟨⟨ps, hps⟩, qs, hqs⟩
  · rintro ⟨⟨ps, hps⟩, qs, hqs⟩
    exact ⟨ps ++ qs, ps, hps, qs, hqs, rfl⟩

/-- **What further parts take away** of what a grant implies: the components that they refuse. -/
theorem implies_joined_iff (hj : joined.text = g.text ++ ":" ++ t.text) {value : Option String} :
    joined.implies domain action value = true ↔ g.implies domain action value = true ∧
      (g.parts.length ≤ 3 →
        acceptAll t.parts ([some domain, some action, value].drop g.parts.length) = true) := by
  unfold implies
  rw [parts_joined hj]
  exact acceptAll_append g.parts t.parts [some domain, some action, value]

/-- **What further parts take away** of what a grant covers. A surplus part has no say in that. -/
theorem coversAction_joined_iff (hj : joined.text = g.text ++ ":" ++ t.text) :
    joined.coversAction domain action = true ↔ g.coversAction domain action = true ∧
      ∀ pc ∈ t.parts.zip ([some domain, some action].drop g.parts.length),
        pc.1.accepts pc.2 = true := by
  unfold coversAction
  rw [parts_joined hj, zip_append_drop, List.all_append, Bool.and_eq_true]
  exact and_congr_right fun _ => List.all_eq_true

/-- **Further parts never widen a grant.** A text with a colon and another text behind it is a grant
exactly if both texts are. All that it then implies, on whatever instance or on none, the first
text implies by itself, and all that it covers the first text covers. -/
theorem joined_narrows (text further : String) :
    ((∃ joined, parse (text ++ ":" ++ further) = .ok joined) ↔
      (∃ g, parse text = .ok g) ∧ ∃ t, parse further = .ok t) ∧
    ∀ joined g, parse (text ++ ":" ++ further) = .ok joined → parse text = .ok g →
      ∀ domain action,
        (∀ value, joined.implies domain action value = true →
          g.implies domain action value = true) ∧
        (joined.coversAction domain action = true → g.coversAction domain action = true) := by
  refine ⟨exists_parse_joined_iff, ?_⟩
  intro joined g hjoined hg domain action
  -- the other text is a grant as well, whose parts come behind
  obtain ⟨-, t, ht⟩ := exists_parse_joined_iff.1 ⟨joined, hjoined⟩
  have hj : joined.text = g.text ++ ":" ++ t.text := by
    rw [parse_eq_ok.1 hjoined, parse_eq_ok.1 hg, parse_eq_ok.1 ht]
  refine ⟨?_, ?_⟩
  · intro value himplies
    exact ((implies_joined_iff hj).1 himplies).1
  · intro hcovers
    exact ((coversAction_joined_iff hj).1 hcovers).1

namespace Sample

/-- Everything about cases. -/
def caseGrant : Grant := ⟨"case", [.oneOf ["case"]], by decide⟩

end Sample

/-- Further parts leave one action, and two counties. -/
theorem joined_narrows_sample :
    let short := Sample.caseGrant
    let long := Sample.countyGrant
    parse ("case" ++ ":" ++ "view:Yolo, Madera:*:*") = .ok long ∧ parse "case" = .ok short ∧
      (∃ t, parse "view:Yolo, Madera:*:*" = .ok t) ∧
      (∀ value, long.implies "case" "view" value = true →
        short.implies "case" "view" value = true) ∧
      short.implies "case" "view" (some "Placer") = true ∧
      long.implies "case" "view" (some "Placer") = false := by
  intro short long
  have hlong : parse ("case" ++ ":" ++ "view:Yolo, Madera:*:*") = .ok long := parse_eq_ok.2 rfl
  have hshort : parse "case" = .ok short := parse_eq_ok.2 rfl
  obtain ⟨hparse, hnarrows⟩ := joined_narrows "case" "view:Yolo, Madera:*:*"
  have hfurther : ∃ t, parse "view:Yolo, Madera:*:*" = .ok t := (hparse.1 ⟨long, hlong⟩).2
  have himplies := (hnarrows long short hlong hshort "case" "view").1
  exact ⟨hlong, hshort, hfurther, himplies, by decide, by decide⟩

end Grant

end AccessGuard
