import ScriptEngine.Text.Printable

/-!
# Quoted text

Texts and characters as debug output shows them: in quotes, with the quote
itself, backslashes and control characters escaped, and with every character
that is not printable given by its code point.
-/

set_option autoImplicit false

namespace ScriptEngine

/-- The digits of a code point in base sixteen, in lower case. -/
def hexadecimal (code : Nat) : List Char :=
  Nat.toDigits 16 code

/-- One character as it stands between two `quote`s. -/
def escapeCharacter (quote character : Char) : List Char :=
  if character = '\n' then ['\\', 'n']
  else if character = '\r' then ['\\', 'r']
  else if character = '\t' then ['\\', 't']
  else if character = '\x00' then ['\\', '0']
  else if character = '\\' || character = quote then ['\\', character]
  else if isPrintable character then [character]
  else ['\\', 'u', '\x7b'] ++ hexadecimal character.toNat ++ ['\x7d']

def quoteText (text : String) : String :=
  String.ofList ('"' :: text.toList.flatMap (escapeCharacter '"') ++ ['"'])

def quoteCharacter (character : Char) : String :=
  String.ofList ('\'' :: escapeCharacter '\'' character ++ ['\''])

end ScriptEngine
