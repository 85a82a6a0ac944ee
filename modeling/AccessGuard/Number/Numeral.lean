import AccessGuard.Number.Shortest

/-!
# Numerals

The decimal numerals of JSON, and the numbers they stand for: an integer where the numeral is
whole and fits 64 bits, and a double otherwise.

* `Numeral.read?`: the numeral at the beginning of a text, as long as possible.
* `Numeral.toNumber?`: its number; none where the magnitude is beyond all doubles.
* `Number.text`: the canonical numeral of a number.
-/

namespace AccessGuard

/-- The digits after the `e`. -/
structure Exponent where
  negative : Bool
  digits : List Char
deriving DecidableEq

/-- A decimal numeral as it is written; the fraction is empty where there is no point. -/
structure Numeral where
  negative : Bool
  whole : List Char
  fraction : List Char
  exponent : Option Exponent
deriving DecidableEq

/-- An integer between `-2 ^ 63` and `2 ^ 64 - 1`, or a double. -/
inductive Number where
  | integer (n : Int)
  | double (x : Double)
deriving DecidableEq

namespace Numeral

/-- The number that decimal digits stand for. -/
def digitsValue (ds : List Char) : Nat := Nat.ofDigitChars 10 ds 0

/-- Is there a minus sign first? Also the text after it. -/
def readMinus : List Char → Bool × List Char
  | '-' :: cs => (true, cs)
  | cs => (false, cs)

/-- A point must be followed by a digit. -/
def readFraction? : List Char → Option (List Char × List Char)
  | '.' :: cs =>
    let ds := cs.takeWhile Char.isDigit
    if ds.isEmpty then none else some (ds, cs.dropWhile Char.isDigit)
  | cs => some ([], cs)

/-- An `e`, in either case, must be followed by a digit, with or without a sign between. -/
def readExponent? : List Char → Option (Option Exponent × List Char)
  | [] => some (none, [])
  | c :: cs =>
    if c = 'e' ∨ c = 'E' then
      let (negative, cs) := match cs with
        | '+' :: cs => (false, cs)
        | '-' :: cs => (true, cs)
        | cs => (false, cs)
      let ds := cs.takeWhile Char.isDigit
      if ds.isEmpty then none else some (some ⟨negative, ds⟩, cs.dropWhile Char.isDigit)
    else some (none, c :: cs)

/-- A numeral begins with a digit or a minus sign, and with `0` only where that is all of its
whole part. -/
def read? (cs : List Char) : Option (Numeral × List Char) :=
  let (negative, cs) := readMinus cs
  let whole := cs.takeWhile Char.isDigit
  if whole.isEmpty || (whole.head? == some '0' && whole != ['0']) then none
  else do
    let (fraction, cs) ← readFraction? (cs.dropWhile Char.isDigit)
    let (exponent, cs) ← readExponent? cs
    some (⟨negative, whole, fraction, exponent⟩, cs)

theorem readFraction?_length {cs after ds : List Char} (h : readFraction? cs = some (ds, after)) :
    after.length ≤ cs.length := by
  unfold readFraction? at h
  split at h
  · simp only [Option.ite_none_left_eq_some, Option.some.injEq, Prod.mk.injEq] at h
    obtain ⟨-, -, rfl⟩ := h
    exact Nat.le_succ_of_le (List.dropWhile_suffix _).length_le
  · cases h; exact Nat.le_refl _

theorem readExponent?_length {cs after : List Char} {e : Option Exponent}
    (h : readExponent? cs = some (e, after)) : after.length ≤ cs.length := by
  unfold readExponent? at h
  split at h
  · cases h; exact Nat.le_refl _
  · rename_i c rest
    split at h
    · have hd (r : List Char) : (r.dropWhile Char.isDigit).length ≤ r.length :=
        (List.dropWhile_suffix _).length_le
      simp only [Option.ite_none_left_eq_some, Option.some.injEq, Prod.mk.injEq] at h
      obtain ⟨-, -, rfl⟩ := h
      split
      all_goals
        refine Nat.le_trans (hd _) ?_
        simp only [List.length_cons]
        omega
    · cases h; exact Nat.le_refl _

theorem read?_length {cs after : List Char} {n : Numeral} (h : read? cs = some (n, after)) :
    after.length < cs.length := by
  have hsign : (readMinus cs).2.length ≤ cs.length := by
    unfold readMinus
    split <;> simp
  simp only [read?, Option.ite_none_left_eq_some, Option.bind_eq_bind,
    Option.bind_eq_some_iff, Option.some.injEq, Prod.mk.injEq, Prod.exists] at h
  obtain ⟨hw, ds, r, hf, e, r', he, -, rfl⟩ := h
  -- the whole part is not empty
  have hw : 0 < ((readMinus cs).2.takeWhile Char.isDigit).length := by
    cases hc : (readMinus cs).2.takeWhile Char.isDigit with
    | nil => simp [hc] at hw
    | cons c ds => simp
  have hsplit := congrArg List.length
    (List.takeWhile_append_dropWhile (p := Char.isDigit) (l := (readMinus cs).2))
  rw [List.length_append] at hsplit
  have := readFraction?_length hf
  have := readExponent?_length he
  omega

/-- Appends digits to a number while it stays below `2 ^ 64`; also the digits left over. -/
def accumulate (n : Nat) : List Char → Nat × List Char
  | [] => (n, [])
  | d :: ds =>
    let m := 10 * n + (d.toNat - '0'.toNat)
    if m < 0x10000000000000000 then accumulate m ds else (n, d :: ds)

/-- A magnitude times a power of ten: one multiplication or division, except that divisors
beyond the greatest power of ten take several divisions. -/
def scale? (rank : Nat) (e : Int) : Option Nat :=
  if rank = 0 then some 0
  else if 308 < e then none
  else if 0 ≤ e then
    let r := Double.product rank (Double.tenTo e.toNat)
    if r < Double.infiniteRank then some r else none
  else if -308 ≤ e then some (Double.quotient rank (Double.tenTo (-e).toNat))
  else scale? (Double.quotient rank (Double.tenTo 308)) (e + 308)
termination_by (-e).toNat
decreasing_by omega

/-- The double of a numeral: its first digits, as many as 64 bits hold, scaled by the power of
ten that the point, the digits left over and the exponent make up. Exponents beyond 31 bits
make every magnitude but zero vanish or overflow. -/
def toDouble? (x : Numeral) : Option Double :=
  let (n, extra) := accumulate 0 x.whole
  let (n, ignored) := accumulate n x.fraction
  let places : Int := extra.length - (x.fraction.length - ignored.length)
  let rank := Double.nearest n 1
  let scaled := match x.exponent with
    | none => scale? rank places
    | some ⟨negative, ds⟩ =>
      let e : Nat := digitsValue ds
      if e < 0x80000000 then scale? rank (if negative then places - e else places + e)
      else if n = 0 ∨ negative then some 0
      else none
  scaled.bind (Double.ofRank? x.negative)

/-- A minus sign on zero asks for the double. -/
def toNumber? (x : Numeral) : Option Number :=
  let n := digitsValue x.whole
  let isWhole := x.fraction.isEmpty && x.exponent.isNone
  if isWhole && !x.negative && decide (n < 0x10000000000000000) then some (.integer n)
  else if isWhole && x.negative && decide (0 < n ∧ n ≤ 0x8000000000000000) then some (.integer (-n))
  else x.toDouble?.map .double

end Numeral

/-- The canonical numeral of a number. -/
def Number.text : Number → List Char
  | integer n => if n < 0 then '-' :: Nat.toDigits 10 n.natAbs else Nat.toDigits 10 n.natAbs
  | double x => x.text

end AccessGuard
