/-!
# Hexadecimal digits

Read in either case, written in lower case.

* `hexDigit?_digitChar`: what is written is read back.
-/

namespace AccessGuard

/-- The last hexadecimal digit of a number. -/
def lastDigit (n : Nat) : Fin 16 := .ofNat 16 n

/-- A digit in either case. -/
def hexDigit? (c : Char) : Option (Fin 16) :=
  if '0' ≤ c ∧ c ≤ '9' then some (lastDigit (c.toNat - '0'.toNat))
  else if 'a' ≤ c ∧ c ≤ 'f' then some (lastDigit (c.toNat - 'a'.toNat + 10))
  else if 'A' ≤ c ∧ c ≤ 'F' then some (lastDigit (c.toNat - 'A'.toNat + 10))
  else none

@[simp] theorem hexDigit?_digitChar : ∀ d : Fin 16, hexDigit? (Nat.digitChar d) = some d := by
  decide

end AccessGuard
