/-!
# Reading numbers

Decimal text to the nearest double. A number has an optional sign and is either
one of the words `inf`, `infinity` and `nan` in any case, or digits with an
optional point and an optional exponent; a digit must stand on at least one
side of the point, and blanks are not accepted.
-/

set_option autoImplicit false

namespace ScriptEngine.DecimalText

def digitsValue (digits : List Char) : Nat :=
  digits.foldl (fun value digit => 10 * value + (digit.toNat - '0'.toNat)) 0

/-- The double nearest to `significand * 10 ^ scale`. Scales that are far out of
range are decided without computing the power. -/
def nearest (significand : Nat) (scale : Int) : Float :=
  if significand = 0 then
    0.0
  else
    let point := scale + (Nat.toDigits 10 significand).length
    if 400 < point then 1.0 / 0.0
    else if point < -400 then 0.0
    else if 0 ≤ scale then Float.ofScientific significand false scale.toNat
    else Float.ofScientific significand true (-scale).toNat

/-- The exponent that ends a number: nothing at all, or `e` with an optional
sign and at least one digit. -/
def exponent? : List Char → Option Int
  | [] => some 0
  | marker :: rest =>
      if marker = 'e' || marker = 'E' then
        let (negative, digits) :=
          match rest with
          | '-' :: digits => (true, digits)
          | '+' :: digits => (false, digits)
          | digits => (false, digits)
        if digits.isEmpty || !digits.all Char.isDigit then none
        else
          let magnitude : Int := digitsValue digits
          some (if negative then -magnitude else magnitude)
      else none

def magnitude? (characters : List Char) : Option Float :=
  let whole := characters.takeWhile Char.isDigit
  let afterWhole := characters.dropWhile Char.isDigit
  let (fraction, rest) :=
    match afterWhole with
    | '.' :: afterPoint =>
        (afterPoint.takeWhile Char.isDigit, afterPoint.dropWhile Char.isDigit)
    | _ => ([], afterWhole)
  if whole.isEmpty && fraction.isEmpty then none
  else
    (exponent? rest).map fun exponent =>
      nearest (digitsValue (whole ++ fraction)) (exponent - fraction.length)

def unsigned? (characters : List Char) : Option Float :=
  let word := String.ofList (characters.map Char.toLower)
  if word = "inf" || word = "infinity" then some (1.0 / 0.0)
  else if word = "nan" then some (0.0 / 0.0)
  else magnitude? characters

/-- The number that the characters spell, if they spell one. -/
def number? : List Char → Option Float
  | '-' :: rest => (unsigned? rest).map Float.neg
  | '+' :: rest => unsigned? rest
  | characters => unsigned? characters

end ScriptEngine.DecimalText
