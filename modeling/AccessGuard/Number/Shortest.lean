import AccessGuard.Number.Double

/-!
# The shortest decimal that reads back

A magnitude is written with the fewest digits that lie nearer to it than to any other
magnitude, and of these with the nearest digits.

* `Shortest.digits`: those digits, and the place of the decimal point.
* `Double.text`: the notation, positional near one and scientific far from it.
-/

namespace AccessGuard

namespace Shortest

/-- Digits `d₁d₂…` with a point: the number `0.d₁d₂… · 10 ^ point`. -/
structure Digits where
  digits : List Char
  point : Int

/-- The decimal point of a magnitude: the least `p` with the magnitude below `10 ^ p`. The
factor `10 ^ 324` brings every positive magnitude above one. -/
def pointOf (rank : Nat) : Int :=
  (Nat.toDigits 10 (Double.units rank * Nat.pow 10 324 / Double.resolution)).length - 324

/-- The best number of `n` digits, if one reads back. Twice the magnitude, its midpoints to
both neighbours and the grid of `n` digits are brought to a common denominator; the midpoints
themselves read back where the rank is even. -/
def withDigits? (rank n : Nat) : Option Digits :=
  let point := pointOf rank
  let places := (n : Int) - point
  let up := Nat.pow 10 places.toNat
  let den := 2 * Double.resolution * Nat.pow 10 (-places).toNat
  let v := 2 * Double.units rank * up
  let lo := (Double.units rank + Double.units (rank - 1)) * up
  let hi := (Double.units rank + Double.units (rank + 1)) * up
  let readsBack (c : Nat) : Bool :=
    if rank % 2 = 0 then decide (lo ≤ c * den) && decide (c * den ≤ hi)
    else decide (lo < c * den) && decide (c * den < hi)
  let below := v / den
  let above := below + 1
  let chosen :=
    if readsBack below && (!readsBack above || roundHalfEven v den == below) then some below
    else if readsBack above then some above
    else none
  chosen.map fun c =>
    let ds := Nat.toDigits 10 c
    { digits := (ds.reverse.dropWhile (· == '0')).reverse
      point := point + (ds.length - n) }

/-- Seventeen digits always read back. -/
def digits (rank : Nat) : Digits :=
  ((List.range 17).findSome? fun i => withDigits? rank (i + 1)).getD ⟨[], 0⟩

end Shortest

/-- The least and the greatest place of the decimal point in positional notation. -/
def positionalPoints : Int × Int := (-4, 16)

/-- Positional notation has at least one digit on both sides of the point. -/
def positionalText (ds : List Char) (point : Int) : List Char :=
  let lead := List.replicate (-point).toNat '0'
  let digits := ds ++ List.replicate (point.toNat - ds.length) '0'
  let whole := digits.take point.toNat
  let fraction := lead ++ digits.drop point.toNat
  (if whole.isEmpty then ['0'] else whole) ++ '.' :: (if fraction.isEmpty then ['0'] else fraction)

/-- Scientific notation writes the sign of every exponent. -/
def scientificText (ds : List Char) (point : Int) : List Char :=
  let exponent := point - 1
  let mantissa := match ds with
    | d :: e :: rest => d :: '.' :: e :: rest
    | ds => ds
  mantissa ++ 'e' :: (if exponent < 0 then '-' else '+') :: Nat.toDigits 10 exponent.natAbs

/-- Zero keeps its sign. -/
def Double.text (x : Double) : List Char :=
  let sign := if x.negative then ['-'] else []
  if x.rank = 0 then sign ++ "0.0".toList
  else
    let s := Shortest.digits x.rank
    if positionalPoints.1 ≤ s.point ∧ s.point ≤ positionalPoints.2 then
      sign ++ positionalText s.digits s.point
    else sign ++ scientificText s.digits s.point

end AccessGuard
