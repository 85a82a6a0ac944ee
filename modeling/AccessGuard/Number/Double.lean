/-!
# Doubles

The finite numbers of 64-bit floating point, in exact integer arithmetic. The magnitudes are
numbered by size: zero has rank 0, the least positive magnitude rank 1, and so on up to the
rank where infinity would stand. The rank is the bit pattern without its sign.

* `Double.nearest`: the rank of the magnitude nearest to a ratio, ties to the even rank.
* `Double.product`, `Double.quotient`: product and quotient, rounded once.
-/

namespace AccessGuard

/-- The quotient rounded to the nearest integer, a half to the even one. -/
def roundHalfEven (n d : Nat) : Nat :=
  let q := n / d
  let r := n % d
  if 2 * r < d then q
  else if d < 2 * r then q + 1
  else if q % 2 = 0 then q
  else q + 1

namespace Double

/-- All magnitudes are multiples of the reciprocal of this number. -/
def resolution : Nat := Nat.pow 2 1074

/-- Magnitudes with the same exponent are consecutive; there are this many. -/
def blockSize : Nat := Nat.pow 2 52

/-- The rank at which infinity stands. -/
def infiniteRank : Nat := 2047 * blockSize

/-- A magnitude as a multiple of the least positive one: 53 significant bits, shifted by the
exponent; the ranks below `2 ^ 53` are their own multiples. -/
def units (rank : Nat) : Nat :=
  let block := rank / blockSize
  if block = 0 then rank else (blockSize + rank % blockSize) * Nat.pow 2 (block - 1)

/-- The rank of the magnitude nearest to `n / d`. -/
def nearest (n d : Nat) : Nat :=
  let whole := n * resolution / d
  let shift := whole.log2 - 52
  shift * blockSize + roundHalfEven (n * resolution) (d * Nat.pow 2 shift)

/-- The magnitude nearest to a product. -/
def product (x y : Nat) : Nat := nearest (units x * units y) (resolution * resolution)

/-- The magnitude nearest to a quotient. -/
def quotient (x y : Nat) : Nat := nearest (units x) (units y)

/-- The magnitude nearest to a power of ten. -/
def tenTo (k : Nat) : Nat := nearest (Nat.pow 10 k) 1

end Double

/-- A finite number of 64-bit floating point. -/
structure Double where
  negative : Bool
  rank : Nat
  finite : rank < Double.infiniteRank
deriving DecidableEq

/-- No number where the magnitude is infinite. -/
def Double.ofRank? (negative : Bool) (rank : Nat) : Option Double :=
  if h : rank < infiniteRank then some ⟨negative, rank, h⟩ else none

end AccessGuard
