import ScriptEngine.Grammar.Expression

/-!
# The grammar of statements

A statement ends with a newline, a semicolon or the end of the source. A block
is either a colon with one simple statement on the same line, or a newline with
any number of statements; a compound whose last block has the second form is
closed by `end`.
-/

set_option autoImplicit false

namespace ScriptEngine

namespace Parse

def atTerminator : Parse Bool := do
  let token ← peek
  return token.kind = .newline || token.kind = .semicolon || token.kind = .endOfSource

/-- Takes what ends a statement. The end of the source stays in place. -/
def terminator : Parse Unit := do
  let token ← peek
  match token.kind with
  | .newline | .semicolon => skip
  | .endOfSource => return ()
  | kind => refuse (.unexpectedToken kind .newline) token.span

/-- The rest of a list of printed expressions, each behind a comma. -/
def printedRest : Nat → Parse (List ExpressionRef)
  | 0 => exhausted
  | bound + 1 => do
      if ← accept .comma then
        let value ← expression bound
        let rest ← printedRest bound
        return value.node :: rest
      else
        return []

def assignOperator? : TokenKind → Option AssignOperator
  | .equal => some .set
  | .plusEqual => some .add
  | .minusEqual => some .subtract
  | _ => none

/-- An expression on its own, or an assignment to it. -/
def assignmentOrExpression (bound : Nat) : Parse StatementRef := do
  let left ← expression bound
  let token ← peek
  match assignOperator? token.kind with
  | none => pushStatement (.expression left.node)
  | some operator =>
      skip
      match left.target with
      | none => refuse .invalidAssignmentTarget left.span
      | some target =>
          let value ← expression bound
          pushStatement (.assign target operator value.node (left.span.merge value.span))

/-- A statement without blocks, up to what ends it. -/
def simpleStatement (bound : Nat) : Parse StatementRef := do
  let token ← peek
  match token.kind with
  | .printWord =>
      skip
      if ← atTerminator then
        pushStatement (.print [])
      else
        let value ← expression bound
        let rest ← printedRest bound
        pushStatement (.print (value.node :: rest))
  | .passWord =>
      skip
      pushStatement .pass
  | .continueWord =>
      skip
      pushStatement (.continueLoop token.span)
  | .breakWord =>
      skip
      match ← accept? .number with
      | none => pushStatement (.breakLoops 1 token.span)
      | some number =>
          match number.count? with
          | none => refuse .invalidBreakCount number.span
          | some count => pushStatement (.breakLoops count (token.span.merge number.span))
  | .returnWord =>
      skip
      if ← atTerminator then
        pushStatement (.returnValue none)
      else
        let value ← expression bound
        pushStatement (.returnValue (some value.node))
  | .delWord =>
      skip
      let (deleted, span) ← name
      pushStatement (.delete deleted (token.span.merge span))
  | _ => assignmentOrExpression bound

/-- The names of parameters up to the closing parenthesis, which is taken. -/
def parameters : Nat → Parse (List String)
  | 0 => exhausted
  | bound + 1 => do
      if ← accept .rightParenthesis then
        return []
      else
        let (parameter, _) ← name
        if ← accept .comma then
          let rest ← parameters bound
          return parameter :: rest
        else
          let _ ← expect .rightParenthesis
          return [parameter]

def blockEnds : List TokenKind := [.endWord, .elsifWord, .elseWord]

/-- Closes a compound, which needs `end` exactly when its last block has the form
with several lines. -/
def closeCompound (severalLines : Bool) : Parse Unit := do
  if severalLines then
    let _ ← expect .endWord
    terminator
  else
    return ()

mutual

/-- A sequence of statements up to one of the given tokens, which stays in place. -/
def sequence : Nat → List TokenKind → Parse (List StatementRef)
  | 0, _ => exhausted
  | bound + 1, ends => do
      skipKinds [.newline, .semicolon]
      let token ← peek
      if ends.contains token.kind then
        return []
      else if token.kind = .endOfSource then
        refuse .unexpectedEnd token.span
      else
        let first ← statement bound
        let rest ← sequence bound ends
        return first :: rest

def statement : Nat → Parse StatementRef
  | 0 => exhausted
  | bound + 1 => do
      let token ← peek
      match token.kind with
      | .ifWord =>
          skip
          let condition ← expression bound
          let (body, severalLines) ← block bound
          let (branches, otherwise) ← furtherBranches bound severalLines
          pushStatement (.branch ((condition.node, body) :: branches) otherwise)
      | .whileWord =>
          skip
          let condition ← expression bound
          let (body, severalLines) ← block bound
          closeCompound severalLines
          pushStatement (.whileLoop condition.node body)
      | .forWord =>
          skip
          let (item, _) ← name
          let _ ← expect .inWord
          let iterable ← expression bound
          let (body, severalLines) ← block bound
          closeCompound severalLines
          pushStatement (.forLoop item iterable.node body (token.span.merge iterable.span))
      | .defWord =>
          skip
          let (function, _) ← name
          let _ ← expect .leftParenthesis
          let names ← parameters bound
          let (body, severalLines) ← block bound
          closeCompound severalLines
          pushStatement (.define function names body)
      | .recordWord =>
          skip
          let (record, span) ← name
          let body ← recordBody bound
          pushStatement (.record record body (token.span.merge span))
      | _ =>
          let simple ← simpleStatement bound
          terminator
          return simple

/-- A block: its first statement, and whether it has the form with several lines. -/
def block : Nat → Parse (Option StatementRef × Bool)
  | 0 => exhausted
  | bound + 1 => do
      if ← accept .colon then
        let simple ← simpleStatement bound
        terminator
        return (some simple, false)
      else
        let token ← next
        match token.kind with
        | .newline =>
            let statements ← sequence bound blockEnds
            let first ← link statements
            return (first, true)
        | .endOfSource => refuse .unexpectedEnd token.span
        | kind => refuse (.unexpectedToken kind .colon) token.span

/-- The `elsif` branches and the `else` block behind a branch, and the `end` if
the last block, whose form is given for the one that was read, asks for it. -/
def furtherBranches : Nat → Bool →
    Parse (List (ExpressionRef × Option StatementRef) × Option (Option StatementRef))
  | 0, _ => exhausted
  | bound + 1, severalLines => do
      skipKinds [.newline]
      if ← accept .elsifWord then
        let condition ← expression bound
        let (body, severalLines) ← block bound
        let (branches, otherwise) ← furtherBranches bound severalLines
        return ((condition.node, body) :: branches, otherwise)
      else if ← accept .elseWord then
        let (body, severalLines) ← block bound
        closeCompound severalLines
        return ([], some body)
      else
        closeCompound severalLines
        return ([], none)

/-- The block of a record, which may be missing altogether. -/
def recordBody : Nat → Parse (Option StatementRef)
  | 0 => exhausted
  | bound + 1 => do
      let token ← peek
      match token.kind with
      | .semicolon | .endOfSource =>
          terminator
          return none
      | _ =>
          let (body, severalLines) ← block bound
          closeCompound severalLines
          return body

end

/-- A whole source: statements up to its end. They become the script's first
sequence, and the script is given away. -/
def program (bound : Nat) : Parse Script := do
  let statements ← sequence bound [.endOfSource]
  let _ ← expect .endOfSource
  let first ← link statements
  let cursor ← get
  set { cursor with script := Script.empty }
  return { cursor.script with first }

end Parse

namespace Cursor

def ofSource (source : String) : Cursor :=
  ⟨LexicalItem.scan source, Script.empty⟩

/-- A depth of calls that no production reaches: a production calls at most a
handful of others before it takes an item. -/
def depthBound (cursor : Cursor) : Nat :=
  16 * cursor.items.length + 16

/-- Runs a production. Running out of depth, which the bound rules out, would be
answered like a source that ends too early. -/
def parse {α : Type} (cursor : Cursor) (production : Nat → Parse α) :
    Except ParseError (α × Cursor) :=
  match production cursor.depthBound cursor with
  | .ok answer => .ok answer
  | .error (.refused failure _) => .error failure
  | .error .exhausted => .error ⟨.unexpectedEnd, Span.between 0 0⟩

def takeExpression (cursor : Cursor) : Except ParseError (ExpressionRef × Cursor) :=
  (cursor.parse Parse.expression).map fun (parsed, cursor) => (parsed.node, cursor)

/-- The cursor behind an attempt to take an expression, whether or not there was one. -/
def afterExpression (cursor : Cursor) : Cursor :=
  match Parse.expression cursor.depthBound cursor with
  | .ok (_, after) => after
  | .error (.refused _ left) => left
  | .error .exhausted => cursor

def finish (cursor : Cursor) : Except ParseError Script :=
  (cursor.parse Parse.program).map Prod.fst

end Cursor

namespace Script

def ofSource (source : String) : Except ParseError Script :=
  (Cursor.ofSource source).finish

end Script

end ScriptEngine
