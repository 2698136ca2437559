/-!
# Binary64 numbers

The exact value of a double: a sign, a natural mantissa and a power of two.
Everything that needs exact arithmetic on numbers (writing and reading decimal
digits, remainders, positions in a sequence) goes through this decomposition.
-/

set_option autoImplicit false

namespace ScriptEngine

/-- What a double stands for. A finite one is `mantissa * 2 ^ exponent` with a
sign of its own, so that zero has two forms. -/
inductive Binary64 where
  | notANumber
  | infinite (negative : Bool)
  | finite (negative : Bool) (mantissa : Nat) (exponent : Int)
deriving DecidableEq, Repr

namespace Binary64

def leastExponent : Int := -1074

/-- The leading bit of a normal mantissa, which a double leaves out. -/
def hiddenBit : Nat := 1 <<< 52

def ofFloat (number : Float) : Binary64 :=
  let bits := number.toBits.toNat
  let negative := bits >>> 63 == 1
  let exponent := (bits >>> 52) % 2048
  let fraction := bits % hiddenBit
  if exponent = 2047 then
    if fraction = 0 then .infinite negative else .notANumber
  else if exponent = 0 then
    .finite negative fraction leastExponent
  else
    .finite negative (fraction + hiddenBit) (exponent - 1075)

/-- The double `mantissa * 2 ^ exponent` for a mantissa below `2 ^ 53` and an
exponent that is not below the least one. -/
def pack (negative : Bool) (mantissa : Nat) (exponent : Int) : Float :=
  if mantissa = 0 then
    if negative then -0.0 else 0.0
  else
    let shift := min (52 - mantissa.log2) (exponent - leastExponent).toNat
    let mantissa := mantissa <<< shift
    let biased := (exponent - shift + 1075).toNat
    let magnitude :=
      if mantissa < hiddenBit then mantissa else biased <<< 52 + (mantissa - hiddenBit)
    Float.ofBits (UInt64.ofNat ((if negative then 1 <<< 63 else 0) + magnitude))

/-- The number as an integer, if it is finite and whole. Both zeros are `0`. -/
def integer? (number : Float) : Option Int :=
  match ofFloat number with
  | .finite negative mantissa exponent =>
      let signed (magnitude : Nat) : Int := if negative then -magnitude else magnitude
      if 0 ≤ exponent then
        some (signed (mantissa <<< exponent.toNat))
      else
        let unit := 1 <<< (-exponent).toNat
        if mantissa % unit = 0 then some (signed (mantissa / unit)) else none
  | _ => none

/-- The remainder of the division truncated toward zero, computed exactly. It
has the sign of the dividend; dividing by zero or dividing an infinity gives no
number. -/
def remainder (dividend divisor : Float) : Float :=
  match ofFloat dividend, ofFloat divisor with
  | .finite negative mantissa exponent, .finite _ divisorMantissa divisorExponent =>
      if divisorMantissa = 0 then
        0.0 / 0.0
      else
        let common := min exponent divisorExponent
        let scaled := mantissa <<< (exponent - common).toNat
        let divisorScaled := divisorMantissa <<< (divisorExponent - common).toNat
        pack negative (scaled % divisorScaled) common
  | .finite .., .infinite _ => dividend
  | _, _ => 0.0 / 0.0

end Binary64

end ScriptEngine
