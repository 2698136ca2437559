import ScriptEngine.Decimal.Binary64

/-!
# Shortest decimal digits

The fewest decimal digits that read back as a given double, and among those of
that length the ones nearest to it. The doubles round to nearest, so the reals
that read back as `mantissa * 2 ^ exponent` form an interval around it whose
ends belong to it exactly when the mantissa is even.

For each number of digits the two neighbours of the value on that decimal grid
are tested in exact arithmetic; if any point of the grid lies in the interval,
one of these two does.
-/

set_option autoImplicit false

namespace ScriptEngine

/-- The positive decimal `0.d₁d₂… * 10 ^ point` with the digits `d₁d₂…`. -/
structure DecimalDigits where
  digits : List Char
  point : Int
deriving DecidableEq, Repr

namespace DecimalDigits

/-- The decimal `significand * 10 ^ scale` without trailing zeros. -/
def ofScaled (significand : Nat) (scale : Int) : DecimalDigits :=
  let digits := Nat.toDigits 10 significand
  ⟨(digits.reverse.dropWhile (· = '0')).reverse, scale + digits.length⟩

/-- The fraction `value / 10 ^ scale` as a factor and a
denominator such that `quarters * numerator / denominator` is the decimal
quotient of `quarters * 2 ^ (exponent - 2)`. -/
def scaleFactors (exponent scale : Int) : Nat × Nat :=
  (Nat.pow 10 (-scale).toNat <<< (exponent - 2).toNat,
    Nat.pow 10 scale.toNat <<< (2 - exponent).toNat)

/-- The power of ten just above `mantissa * 2 ^ exponent`: the least `point` with
the value below `10 ^ point`. The logarithm of two gives a first guess that is
off by at most one. -/
def magnitude (mantissa : Nat) (exponent : Int) : Int :=
  let bits : Int := mantissa.log2 + exponent
  let guess := bits * 30103 / 100000 + 1
  let reaches (point : Int) : Bool :=
    let (numerator, denominator) := scaleFactors exponent point
    denominator ≤ 4 * mantissa * numerator
  if reaches guess then guess + 1
  else if reaches (guess - 1) then guess
  else guess - 1

/-- The point of the grid `10 ^ scale` that reads back as the double and is
nearest to it, if any. Of two at the same distance it is the larger one. -/
def onGrid? (mantissa : Nat) (exponent scale : Int) : Option Nat :=
  let (numerator, denominator) := scaleFactors exponent scale
  let value := 4 * mantissa * numerator
  let lowest := (if mantissa = Binary64.hiddenBit then 4 * mantissa - 1 else 4 * mantissa - 2) * numerator
  let highest := (4 * mantissa + 2) * numerator
  let readsBack (significand : Nat) : Bool :=
    let point := significand * denominator
    if mantissa % 2 = 0 then lowest ≤ point && point ≤ highest
    else lowest < point && point < highest
  let below := value / denominator
  let above := below + 1
  match readsBack below, readsBack above with
  | true, true =>
      if value - below * denominator < above * denominator - value then some below
      else some above
  | true, false => some below
  | false, true => some above
  | false, false => none

/-- Tries grids of `count` digits and more, `tries` of them. -/
def shortestFrom (mantissa : Nat) (exponent point : Int) : Nat → Nat → DecimalDigits
  | count, 0 => ofScaled ((onGrid? mantissa exponent (point - count)).getD 0) (point - count)
  | count, tries + 1 =>
      match onGrid? mantissa exponent (point - count) with
      | some significand => ofScaled significand (point - count)
      | none => shortestFrom mantissa exponent point (count + 1) tries

/-- The fewest digits that read back as the positive double
`mantissa * 2 ^ exponent`. Seventeen digits always do. -/
def shortest (mantissa : Nat) (exponent : Int) : DecimalDigits :=
  shortestFrom mantissa exponent (magnitude mantissa exponent) 1 16

end DecimalDigits

end ScriptEngine
