import ScriptEngine.Decimal.Reading
import ScriptEngine.Text.Literal
import ScriptEngine.Token.Basic

/-!
# What literal tokens stand for
-/

set_option autoImplicit false

namespace ScriptEngine.Token

/-- The number that a numeric token stands for. Its lexeme is digits with at most
one point among them, which always spells a number. -/
def number (token : Token) : Float :=
  (DecimalText.number? token.lexeme.toList).getD 0.0

def text (token : Token) : String :=
  TextLiteral.value token.lexeme

/-- The whole number that a numeric token spells, if it has no fraction and fits
into a machine word of 64 bits. -/
def count? (token : Token) : Option Nat :=
  let digits := token.lexeme.toList
  if digits.all Char.isDigit then
    let count := DecimalText.digitsValue digits
    if count < UInt64.size then some count else none
  else none

end ScriptEngine.Token
