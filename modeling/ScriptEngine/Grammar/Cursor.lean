import ScriptEngine.Grammar.Error
import ScriptEngine.Script.Basic
import ScriptEngine.Token.Lexer

/-!
# The parser's state

A parser reads lexical items from left to right and adds nodes to the script
that it builds. The last item, the end of the source, can be read any number of
times. A lexical error stops the parser when it is looked at, not before.

Productions call each other under a bound on the depth of these calls. Running
out of the bound is kept apart from refusing the source; the bound that the
entry points choose grows with the number of items.
-/

set_option autoImplicit false

namespace ScriptEngine

/-- What is left to read, and the script built so far. -/
structure Cursor where
  items : List LexicalItem
  script : Script

/-- Why a production gave no result. A refusal leaves a cursor behind, from which
reading can go on. -/
inductive ParseStop where
  | refused (failure : ParseError) (left : Cursor)
  | exhausted

/-- A production with a result of type `α`. -/
abbrev Parse (α : Type) := StateT Cursor (Except ParseStop) α

namespace Parse

def refuse {α : Type} (cause : ParseCause) (span : Span) : Parse α :=
  fun cursor => .error (.refused ⟨cause, span⟩ cursor)

def exhausted {α : Type} : Parse α :=
  fun _ => .error .exhausted

/-- The next token, which stays in place. -/
def peek : Parse Token := fun cursor =>
  match cursor.items with
  | [] => .ok (⟨.endOfSource, "", Span.between 0 0⟩, cursor)
  | .ok token :: _ => .ok (token, cursor)
  | .error failure :: _ => .error (.refused (.ofLexical failure) cursor)

def skip : Parse Unit := fun cursor =>
  match cursor.items with
  | _ :: next :: rest => .ok ((), { cursor with items := next :: rest })
  | _ => .ok ((), cursor)

def next : Parse Token := fun cursor =>
  match cursor.items with
  | .error failure :: rest =>
      .error (.refused (.ofLexical failure) { cursor with items := rest })
  | _ => (do let token ← peek; skip; return token) cursor

/-- Takes the next token, which must be of the given kind. -/
def expect (kind : TokenKind) : Parse Token := do
  let token ← next
  if token.kind = kind then
    return token
  else
    refuse (.unexpectedToken token.kind kind) token.span

def accept? (kind : TokenKind) : Parse (Option Token) := do
  let token ← peek
  if token.kind = kind then
    skip
    return some token
  else
    return none

/-- Whether a token of the given kind was next; if so it is taken. -/
def accept (kind : TokenKind) : Parse Bool :=
  Option.isSome <$> accept? kind

def dropKinds (kinds : List TokenKind) : List LexicalItem → List LexicalItem
  | .ok token :: following :: rest =>
      if kinds.contains token.kind then dropKinds kinds (following :: rest)
      else .ok token :: following :: rest
  | items => items

def skipKinds (kinds : List TokenKind) : Parse Unit := do
  modify fun cursor => { cursor with items := dropKinds kinds cursor.items }

def name : Parse (String × Span) := do
  let token ← expect .identifier
  return (token.lexeme, token.span)

def pushExpression (node : Expression) : Parse ExpressionRef := fun cursor =>
  let (reference, script) := cursor.script.pushExpression node
  .ok (reference, { cursor with script })

def pushStatement (node : Statement) : Parse StatementRef := fun cursor =>
  let (reference, script) := cursor.script.pushStatement node
  .ok (reference, { cursor with script })

def link (sequence : List StatementRef) : Parse (Option StatementRef) := fun cursor =>
  .ok (sequence.head?, { cursor with script := cursor.script.link sequence })

end Parse

end ScriptEngine
