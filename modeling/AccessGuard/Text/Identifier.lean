/-!
# Identifiers

A letter or underscore of ASCII, followed by letters, digits and underscores of ASCII.

* `takeIdentifier_eq_some`: the longest run of identifier characters is taken, and only if it
  is an identifier.
-/

namespace AccessGuard

/-- May an identifier begin with this character? -/
def isNameStart (c : Char) : Bool := c.isAlpha || c == '_'

/-- May an identifier go on with this character? -/
def isNameChar (c : Char) : Bool := c.isAlphanum || c == '_'

/-- Is a text an identifier? -/
def isIdentifier : List Char → Bool
  | [] => false
  | c :: cs => isNameStart c && cs.all isNameChar

/-- The identifier at the beginning of a text, as long as possible, and what follows it. -/
def takeIdentifier (cs : List Char) : Option (List Char × List Char) :=
  if isIdentifier (cs.takeWhile isNameChar) then
    some (cs.takeWhile isNameChar, cs.dropWhile isNameChar)
  else none

theorem isNameChar_of_isNameStart {c : Char} (h : isNameStart c = true) : isNameChar c = true := by
  simp only [isNameStart, isNameChar, Bool.or_eq_true, Char.isAlphanum] at h ⊢
  rcases h with h | h
  · exact .inl (.inl h)
  · exact .inr h

theorem all_isNameChar_of_isIdentifier {cs : List Char} (h : isIdentifier cs = true) :
    cs.all isNameChar = true := by
  cases cs with
  | nil => cases h
  | cons c cs =>
    simp only [isIdentifier, Bool.and_eq_true] at h
    simp [List.all_cons, isNameChar_of_isNameStart h.1, h.2]

/-- The name and the rest make up the text, the name is an identifier, and the rest cannot
lengthen it. -/
theorem takeIdentifier_eq_some {cs name rest : List Char} :
    takeIdentifier cs = some (name, rest) ↔
      cs = name ++ rest ∧ isIdentifier name = true ∧ ∀ c ∈ rest.head?, isNameChar c = false := by
  constructor
  · intro h
    unfold takeIdentifier at h
    split at h
    case isTrue hi =>
      obtain ⟨rfl, rfl⟩ := Prod.mk.inj (Option.some.inj h)
      refine ⟨List.takeWhile_append_dropWhile.symm, hi, fun c hc => ?_⟩
      have := List.head?_dropWhile_not isNameChar cs
      simp_all
    case isFalse => cases h
  · rintro ⟨rfl, hi, hr⟩
    have hall := all_isNameChar_of_isIdentifier hi
    have htake : (name ++ rest).takeWhile isNameChar = name := by
      rw [List.takeWhile_append_of_pos (by simpa using hall)]
      cases rest with
      | nil => simp
      | cons c rest => simp [hr c rfl]
    have hdrop : (name ++ rest).dropWhile isNameChar = rest := by
      rw [List.dropWhile_append_of_pos (by simpa using hall)]
      cases rest with
      | nil => simp
      | cons c rest => simp [hr c rfl]
    simp [takeIdentifier, htake, hdrop, hi]

end AccessGuard
