import ScriptEngine.Decimal.Shortest

/-!
# Writing numbers

How a number becomes text. Both styles use the shortest digits that read back.
Values print positionally without a fraction for whole numbers; debug output
keeps one digit after the point and uses exponents far from one.
-/

set_option autoImplicit false

namespace ScriptEngine

/-- The choices of a number format. -/
structure NumberStyle where
  /-- Whole numbers written positionally end in `.0`. -/
  keepsFraction : Bool
  /-- The values `0.d₁d₂… * 10 ^ point` written without an exponent. -/
  positional : Int → Bool

namespace NumberStyle

/-- How values print: always positional, nothing after a whole number. -/
def plain : NumberStyle where
  keepsFraction := false
  positional := fun _ => true

/-- How debug output shows numbers: positional from `0.0001` up to but not
including `10 ^ 16`. -/
def explicit : NumberStyle where
  keepsFraction := true
  positional := fun point => -3 ≤ point && point ≤ 16

def writePositional (style : NumberStyle) (decimal : DecimalDigits) : List Char :=
  let count : Int := decimal.digits.length
  if decimal.point ≤ 0 then
    '0' :: '.' :: List.replicate (-decimal.point).toNat '0' ++ decimal.digits
  else if count ≤ decimal.point then
    decimal.digits ++ List.replicate (decimal.point - count).toNat '0' ++
      (if style.keepsFraction then ['.', '0'] else [])
  else
    decimal.digits.take decimal.point.toNat ++ '.' :: decimal.digits.drop decimal.point.toNat

/-- One digit, the rest behind a point if there is a rest, and the exponent. -/
def writeScientific (decimal : DecimalDigits) : List Char :=
  let exponent := decimal.point - 1
  let exponentText := 'e' :: (toString exponent).toList
  match decimal.digits with
  | [] => '0' :: exponentText
  | [digit] => digit :: exponentText
  | digit :: rest => digit :: '.' :: rest ++ exponentText

/-- The number as text. A value that is no number has no sign. -/
def write (style : NumberStyle) (number : Float) : String :=
  match Binary64.ofFloat number with
  | .notANumber => "NaN"
  | .infinite negative => if negative then "-inf" else "inf"
  | .finite negative mantissa exponent =>
      let magnitude : List Char :=
        if mantissa = 0 then
          '0' :: (if style.keepsFraction then ['.', '0'] else [])
        else
          let decimal := DecimalDigits.shortest mantissa exponent
          if style.positional decimal.point then style.writePositional decimal
          else writeScientific decimal
      String.ofList (if negative then '-' :: magnitude else magnitude)

end NumberStyle

end ScriptEngine
