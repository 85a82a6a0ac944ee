import AccessGuard.Number.Numeral

/-!
# The double nearest to a decimal text

Unlike a numeral of JSON, such a text may begin with a plus sign or a point, end with a point,
and name the values that are not finite. All of its digits count, so the result is the nearest
double.

* `Double.ofText?`: that double; none for what is not finite.
-/

namespace AccessGuard

namespace Double

/-- The rank of `n · 10 ^ e`. Far outside the range of the doubles only the order of
magnitude counts. -/
def nearestDecimal (n : Nat) (e : Int) : Nat :=
  let point := (Nat.toDigits 10 n).length + e
  if n = 0 ∨ point < -330 then 0
  else if 310 < point then infiniteRank
  else nearest (n * Nat.pow 10 e.toNat) (Nat.pow 10 (-e).toNat)

/-- Reads a sign, digits with a point among them, and an exponent. -/
def ofText? (text : String) : Option Double :=
  let (negative, cs) := match text.toList with
    | '+' :: cs => (false, cs)
    | '-' :: cs => (true, cs)
    | cs => (false, cs)
  let whole := cs.takeWhile Char.isDigit
  let rest := cs.dropWhile Char.isDigit
  let (fraction, rest) := match rest with
    | '.' :: rest => (rest.takeWhile Char.isDigit, rest.dropWhile Char.isDigit)
    | rest => ([], rest)
  if whole.isEmpty && fraction.isEmpty then none
  else
    match Numeral.readExponent? rest with
    | some (exponent, []) =>
      let e : Int := match exponent with
        | none => 0
        | some e =>
          if e.negative then -Numeral.digitsValue e.digits else Numeral.digitsValue e.digits
      ofRank? negative
        (nearestDecimal (Numeral.digitsValue (whole ++ fraction)) (e - fraction.length))
    | _ => none

end Double

end AccessGuard
