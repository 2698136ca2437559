import ScriptEngine.Source.Lines
import ScriptEngine.Token.Listing

/-!
# Parse errors

Why a source text is no script, with the wordings of the message, of the
one-line form and of the report.
-/

set_option autoImplicit false

namespace ScriptEngine

/-- What the parser met instead of what the grammar asks for. -/
inductive ParseCause where
  | unexpectedToken (actual expected : TokenKind)
  | nonExpression (kind : TokenKind)
  | invalidAssignmentTarget
  | invalidBreakCount
  | unexpectedEnd
  | lexical (failure : LexicalError)
deriving DecidableEq, Repr

/-- A cause with the place in the source where it was met. -/
structure ParseError where
  cause : ParseCause
  span : Span
deriving DecidableEq, Repr

namespace ParseError

/-- A stretch of source that is no token, as a parse error at its place. -/
def ofLexical (failure : LexicalError) : ParseError :=
  ⟨.lexical failure, failure.span⟩

end ParseError

namespace ParseCause

def code : ParseCause → String
  | unexpectedToken .. => "PE001"
  | nonExpression _ => "PE002"
  | invalidAssignmentTarget => "PE003"
  | invalidBreakCount => "PE004"
  | unexpectedEnd => "PE005"
  | lexical _ => "PE006"

def message : ParseCause → String
  | unexpectedToken actual expected => "Expected " ++ expected.label ++ " but got " ++ actual.label
  | nonExpression kind => "Expected an expression but got " ++ kind.label
  | invalidAssignmentTarget => "Invalid assignment target"
  | invalidBreakCount => "Expected a whole number of loops to break out of"
  | unexpectedEnd => "Unexpected end of file"
  | lexical failure => failure.cause.message

def headline : ParseCause → String
  | unexpectedToken .. => "Expected a different token"
  | nonExpression _ => "Expected a valid expression operator or atom token"
  | invalidAssignmentTarget => "Expected a name, member or element to assign to"
  | invalidBreakCount => "Expected a whole number of loops"
  | unexpectedEnd => "Unexpected EOF"
  | lexical failure =>
      match failure.cause with
      | .unrecognized _ => "Encountered an unrecognized character"
      | .unclosedText => "Encountered an unterminated string"

def remark : ParseCause → String
  | unexpectedToken actual expected => "Expected " ++ expected.label ++ " but got " ++ actual.label
  | nonExpression kind => "Not an expression token " ++ kind.label
  | invalidAssignmentTarget => "Cannot assign to this expression"
  | invalidBreakCount => "Not a loop count"
  | unexpectedEnd => "File ends here..."
  | lexical failure =>
      match failure.cause with
      | .unrecognized character => "Unrecognized character " ++ character.toString
      | .unclosedText => "This string is never closed"

def dump : ParseCause → Dump
  | unexpectedToken actual expected =>
      .fields "UnexpectedToken"
        [("actual", .atom actual.debugName), ("expected", .atom expected.debugName)]
  | nonExpression kind => .call "NonExpression" [.atom kind.debugName]
  | invalidAssignmentTarget => .atom "InvalidAssignmentTarget"
  | invalidBreakCount => .atom "InvalidBreakCount"
  | unexpectedEnd => .atom "UnexpectedEof"
  | lexical failure => .call "Lexical" [failure.dump]

end ParseCause

namespace ParseError

/-- The one-line form: the line number and the message. -/
def oneLine (failure : ParseError) (lines : LineTable) : String :=
  "(" ++ toString (lines.lineOf failure.span) ++ ") [Parser] " ++ failure.cause.message

def title (failure : ParseError) : String :=
  "[" ++ failure.cause.code ++ "] Error: " ++ failure.cause.headline

/-- What a report says at the place of the error. It says nothing if the place is
not in the source that it is made with. -/
def remark? (failure : ParseError) (source : String) : Option String :=
  if failure.span.Within source then some failure.cause.remark else none

def dump (failure : ParseError) : Dump :=
  .fields "ParserError" [("kind", failure.cause.dump), ("span", failure.span.dump)]

end ParseError

end ScriptEngine
