import ScriptEngine.Decimal.Writing
import ScriptEngine.Dump
import ScriptEngine.Source.Lines
import ScriptEngine.Token.Literal

/-!
# Token listings

One line of text for each token or lexical error, in two formats: a basic one
with kind, lexeme and value, and a debug one with all fields.
-/

set_option autoImplicit false

namespace ScriptEngine

/-- The two ways of listing tokens. -/
inductive ListingFormat where
  | basic
  | debug
deriving DecidableEq, Repr

def Span.dump (span : Span) : Dump :=
  .fields "Span"
    [("start", .atom (toString span.start.toNat)), ("length", .atom (toString span.length.toNat))]

def LexicalCause.dump : LexicalCause → Dump
  | unrecognized character => .call "Unrecognized" [.atom (quoteCharacter character)]
  | unclosedText => .atom "UnclosedString"

def LexicalError.dump (failure : LexicalError) : Dump :=
  .fields "LexicalError" [("kind", failure.cause.dump), ("span", failure.span.dump)]

/-- The token as debug output shows it, without its lexeme. -/
def Token.dump (token : Token) : Dump :=
  .fields "Token" [("kind", .atom token.kind.debugName), ("span", token.span.dump)]

/-- The line for a token: its kind, its lexeme and, for literals, its value. -/
def Token.basicLine (token : Token) : String :=
  let lexeme := token.lexeme
  match token.kind with
  | .endOfSource => "EOF  null"
  | .newline => "NEWLINE  null"
  | .number => "NUMBER " ++ lexeme ++ " " ++ NumberStyle.explicit.write token.number
  | .text => "STRING " ++ lexeme ++ " " ++ token.text
  | kind => kind.label ++ " " ++ lexeme ++ " null"

/-- The line for a lexical error, with the line number in front. -/
def LexicalError.basicLine (failure : LexicalError) (lines : LineTable) : String :=
  let place := "[line " ++ toString (lines.lineOf failure.span) ++ "] Error: "
  match failure.cause with
  | .unrecognized character => place ++ "Unexpected character: " ++ character.toString
  | .unclosedText => place ++ "Unterminated string."

def Token.listingLine (token : Token) (format : ListingFormat) : String :=
  match format with
  | .basic => token.basicLine
  | .debug => token.dump.inline

def LexicalError.listingLine (failure : LexicalError) (format : ListingFormat)
    (lines : LineTable) : String :=
  match format with
  | .basic => failure.basicLine lines
  | .debug => failure.dump.inline

end ScriptEngine
