import ScriptEngine.Grammar.Statement
import ScriptEngine.Proofs.Guarded.Reader

/-!
# Parsing with guards

The grammar once more, with everything that could go wrong although the source is not to
blame. Items are drawn from the lexer one by one, and the last one that was looked at is kept.
What is looked at must be there when it is taken, texts are cut out of the source, spans are
merged in words, a numeral must be a number, and a suffix begins with one of three tokens.
A production that is called again, as the next pass of a loop or through other productions,
must have taken a token in between.
-/

set_option autoImplicit false

namespace ScriptEngine

/-- The productions that call each other or themselves. A loop is a production that calls
itself for the next pass. -/
inductive Production where
  | separators
  | operand
  | unary
  | listUntil
  | suffixOf
  | expressionFrom
  | continued
  | printedRest
  | parameters
  | sequence
  | statement
  | block
  | furtherBranches
  | recordBody
deriving DecidableEq, Repr

/-- What a parser works with: the lexer, the item that has been looked at, and the script built
so far. It is counted how many items have been drawn from the lexer and how many tokens have
been taken, the end of the source left out. -/
structure Desk where
  reader : Reader
  slot : Option LexicalItem
  script : Script
  drawn : Nat
  taken : Nat

/-- Why a production gave no result. -/
inductive GuardedStop where
  | refused (failure : ParseError) (left : Desk)
  | broken (fault : Fault)
  | exhausted

/-- What is read, whether positions are looked after, and the productions that are being
called, each with the number of tokens that had been taken when its call began. -/
structure Watch where
  source : String
  positions : Bool
  calls : List (Production × Nat)

/-- A production with a result of type `α`. -/
abbrev Guarded (α : Type) := ReaderT Watch (StateT Desk (Except GuardedStop)) α

namespace Guarded

variable {α : Type}

def refuse (cause : ParseCause) (span : Span) : Guarded α :=
  fun _ desk => .error (.refused ⟨cause, span⟩ desk)

def broken (fault : Fault) : Guarded α :=
  fun _ _ => .error (.broken fault)

def exhausted : Guarded α :=
  fun _ _ => .error .exhausted

/-- Calls a production. It is not called already, or a token has been taken since. -/
def enter (production : Production) (body : Guarded α) : Guarded α := fun watch desk =>
  if (production, desk.taken) ∈ watch.calls then .error (.broken .standstill)
  else body { watch with calls := (production, desk.taken) :: watch.calls } desk

/-!
## Tokens
-/

/-- The next item of the lexer. -/
def draw : Guarded LexicalItem := fun watch desk =>
  match desk.reader.nextItem watch.source watch.positions with
  | .error fault => .error (.broken fault)
  | .ok (item, reader) => .ok (item, { desk with reader, drawn := desk.drawn + 1 })

/-- The token that was met. -/
def reveal (item : LexicalItem) : Guarded Token := fun _ desk =>
  match item with
  | .ok token => .ok (token, desk)
  | .error failure => .error (.refused (.ofLexical failure) desk)

/-- The next token, which stays in place. -/
def peek : Guarded Token := fun watch desk =>
  match desk.slot with
  | some item => reveal item watch desk
  | none => do
      let (item, desk) ← draw watch desk
      reveal item watch { desk with slot := some item }

/-- Takes a token, which is counted unless it is the end of the source. -/
def take (item : LexicalItem) : Guarded Token := fun _ desk =>
  match item with
  | .ok token =>
      if token.kind = .endOfSource then .ok (token, desk)
      else .ok (token, { desk with taken := desk.taken + 1 })
  | .error failure => .error (.refused (.ofLexical failure) desk)

def next : Guarded Token := fun watch desk =>
  match desk.slot with
  | some item => take item watch { desk with slot := none }
  | none => do
      let (item, desk) ← draw watch desk
      take item watch desk

/-- Takes the token that was just looked at. -/
def takePeeked : Guarded Unit := fun watch desk =>
  match next watch desk with
  | .ok (_, after) => .ok ((), after)
  | .error (.refused _ _) => .error (.broken .tokenLost)
  | .error stop => .error stop

def expect (kind : TokenKind) : Guarded Token := do
  let token ← next
  if token.kind = kind then
    return token
  else
    refuse (.unexpectedToken token.kind kind) token.span

def eatIf (kind : TokenKind) : Guarded (Option Token) := do
  let token ← peek
  if token.kind = kind then
    takePeeked
    return some token
  else
    return none

/-- Whether a token of one of the kinds was next; if so it is taken. -/
def eatAny : List TokenKind → Guarded Bool
  | [] => return false
  | kind :: kinds => do
      match ← eatIf kind with
      | some _ => return true
      | none => eatAny kinds

def separators : Nat → List TokenKind → Guarded Unit
  | 0, _ => exhausted
  | bound + 1, kinds => enter .separators do
      if ← eatAny kinds then separators bound kinds else return ()

/-- The token with the text that stands in the source where its span says. -/
def spelled (token : Token) : Guarded Token := fun watch desk =>
  match Reader.textOf watch.source watch.positions token.span token.lexeme with
  | .ok lexeme => .ok ({ token with lexeme }, desk)
  | .error fault => .error (.broken fault)

def name : Guarded (String × Span) := do
  let token ← spelled (← expect .identifier)
  return (token.lexeme, token.span)

/-- The smallest span that covers both. With a look at positions they are words. -/
def merge (left right : Span) : Guarded Span := fun watch desk =>
  if watch.positions then
    match left.merge? right with
    | some span => .ok (span, desk)
    | none => .error (.broken .wordExceeded)
  else
    .ok (left.merge right, desk)

/-!
## Nodes
-/

def pushExpression (node : Expression) : Guarded ExpressionRef := fun _ desk =>
  let (reference, script) := desk.script.pushExpression node
  .ok (reference, { desk with script })

def pushStatement (node : Statement) : Guarded StatementRef := fun _ desk =>
  let (reference, script) := desk.script.pushStatement node
  .ok (reference, { desk with script })

def link (sequence : List StatementRef) : Guarded (Option StatementRef) := fun _ desk =>
  .ok (sequence.head?, { desk with script := desk.script.link sequence })

/-!
## Expressions
-/

def literal (value : Value) (span : Span) : Guarded ParsedExpression := do
  let node ← pushExpression (.constant value span)
  return ⟨node, span, none⟩

mutual

def operand : Nat → Guarded ParsedExpression
  | 0 => exhausted
  | bound + 1 => enter .operand do
      let token ← spelled (← next)
      match token.kind with
      | .endOfSource => refuse .unexpectedEnd token.span
      | .number =>
          match DecimalText.number? token.lexeme.toList with
          | some number => literal (.number number) token.span
          | none => broken .numberUnreadable
      | .text => literal (.text token.text) token.span
      | .trueWord => literal (.bool true) token.span
      | .falseWord => literal (.bool false) token.span
      | .noneWord => literal .none token.span
      | .identifier =>
          let node ← pushExpression (.name token.lexeme token.span)
          return ⟨node, token.span, some (.name token.lexeme)⟩
      | .minus => unary bound .minus token.span
      | .notWord => unary bound .not token.span
      | .leftParenthesis =>
          let inner ← expressionFrom bound 0
          let close ← expect .rightParenthesis
          let span ← merge token.span close.span
          return ⟨inner.node, span, none⟩
      | .leftBracket =>
          let (elements, close) ← listUntil bound .rightBracket
          let span ← merge token.span close.span
          let node ← pushExpression (.array elements span)
          return ⟨node, span, none⟩
      | kind => refuse (.nonExpression kind) token.span

def unary : Nat → UnaryOperator → Span → Guarded ParsedExpression
  | 0, _, _ => exhausted
  | bound + 1, operator, start => enter .unary do
      let inner ← expressionFrom bound operator.bindingPower
      let span ← merge start inner.span
      let node ← pushExpression (.unary operator inner.node span)
      return ⟨node, span, none⟩

def listUntil : Nat → TokenKind → Guarded (List ExpressionRef × Token)
  | 0, _ => exhausted
  | bound + 1, closing => enter .listUntil do
      match ← eatIf closing with
      | some close => return ([], close)
      | none =>
          let item ← expressionFrom bound 0
          match ← eatIf .comma with
          | some _ =>
              let (items, close) ← listUntil bound closing
              return (item.node :: items, close)
          | none =>
              let close ← expect closing
              return ([item.node], close)

def suffixOf : Nat → ParsedExpression → Guarded ParsedExpression
  | 0, _ => exhausted
  | bound + 1, left => enter .suffixOf do
      let token ← next
      match token.kind with
      | .leftParenthesis =>
          let (arguments, close) ← listUntil bound .rightParenthesis
          let span ← merge left.span close.span
          let node ← pushExpression (.call left.node arguments span)
          return ⟨node, span, none⟩
      | .leftBracket =>
          let index ← expressionFrom bound 0
          let close ← expect .rightBracket
          let span ← merge left.span close.span
          let node ← pushExpression (.element left.node index.node span)
          return ⟨node, span, some (.element left.node index.node)⟩
      | .dot =>
          let (memberName, memberSpan) ← name
          let member ← pushExpression (.name memberName memberSpan)
          let span ← merge left.span memberSpan
          let node ← pushExpression (.member left.node member span)
          return ⟨node, span, some (.member left.node memberName)⟩
      | _ => broken .suffixUnknown

def expressionFrom : Nat → Nat → Guarded ParsedExpression
  | 0, _ => exhausted
  | bound + 1, power => enter .expressionFrom do
      let left ← operand bound
      continued bound power left

def continued : Nat → Nat → ParsedExpression → Guarded ParsedExpression
  | 0, _, _ => exhausted
  | bound + 1, power, left => enter .continued do
      let token ← peek
      match token.kind with
      | .leftParenthesis | .leftBracket | .dot =>
          if suffixPower < power then
            return left
          else
            let extended ← suffixOf bound left
            continued bound power extended
      | _ =>
          match MiddleOperator.ofKind? (← peek).kind with
          | none => return left
          | some operator =>
              if operator.bindingPower < power then
                return left
              else
                let _ ← next
                let right ← expressionFrom bound (operator.bindingPower + 1)
                let span ← merge left.span right.span
                let node ← pushExpression (operator.node left.node right.node span)
                continued bound power ⟨node, span, none⟩

end

def expression (bound : Nat) : Guarded ParsedExpression :=
  expressionFrom bound 0

/-!
## Statements
-/

def atTerminator : Guarded Bool := do
  let token ← peek
  return token.kind = .newline || token.kind = .semicolon || token.kind = .endOfSource

def terminator : Guarded Unit := do
  let token ← peek
  match token.kind with
  | .newline | .semicolon =>
      let _ ← next
      return ()
  | .endOfSource => return ()
  | kind => refuse (.unexpectedToken kind .newline) token.span

def printedRest : Nat → Guarded (List ExpressionRef)
  | 0 => exhausted
  | bound + 1 => enter .printedRest do
      match ← eatIf .comma with
      | some _ =>
          let value ← expression bound
          let rest ← printedRest bound
          return value.node :: rest
      | none => return []

def assignmentOrExpression (bound : Nat) : Guarded StatementRef := do
  let left ← expression bound
  let token ← peek
  match Parse.assignOperator? token.kind with
  | none => pushStatement (.expression left.node)
  | some operator =>
      let _ ← next
      match left.target with
      | none => refuse .invalidAssignmentTarget left.span
      | some target =>
          let value ← expression bound
          let span ← merge left.span value.span
          pushStatement (.assign target operator value.node span)

def simpleStatement (bound : Nat) : Guarded StatementRef := do
  let token ← peek
  match token.kind with
  | .printWord =>
      let _ ← next
      if ← atTerminator then
        pushStatement (.print [])
      else
        let value ← expression bound
        let rest ← printedRest bound
        pushStatement (.print (value.node :: rest))
  | .passWord =>
      let _ ← next
      pushStatement .pass
  | .continueWord =>
      let _ ← next
      pushStatement (.continueLoop token.span)
  | .breakWord =>
      let _ ← next
      match ← eatIf .number with
      | none => pushStatement (.breakLoops 1 token.span)
      | some number =>
          let span ← merge token.span number.span
          match (← spelled number).count? with
          | none => refuse .invalidBreakCount number.span
          | some count => pushStatement (.breakLoops count span)
  | .returnWord =>
      let _ ← next
      if ← atTerminator then
        pushStatement (.returnValue none)
      else
        let value ← expression bound
        pushStatement (.returnValue (some value.node))
  | .delWord =>
      let _ ← next
      let (deleted, span) ← name
      let span ← merge token.span span
      pushStatement (.delete deleted span)
  | _ => assignmentOrExpression bound

def parameters : Nat → Guarded (List String)
  | 0 => exhausted
  | bound + 1 => enter .parameters do
      match ← eatIf .rightParenthesis with
      | some _ => return []
      | none =>
          let (parameter, _) ← name
          match ← eatIf .comma with
          | some _ =>
              let rest ← parameters bound
              return parameter :: rest
          | none =>
              let _ ← expect .rightParenthesis
              return [parameter]

def closeCompound (severalLines : Bool) : Guarded Unit := do
  if severalLines then
    let _ ← expect .endWord
    terminator
  else
    return ()

mutual

def sequence : Nat → List TokenKind → Guarded (List StatementRef)
  | 0, _ => exhausted
  | bound + 1, ends => enter .sequence do
      separators bound [.newline, .semicolon]
      let token ← peek
      if ends.contains token.kind then
        return []
      else if token.kind = .endOfSource then
        refuse .unexpectedEnd token.span
      else
        let first ← statement bound
        let rest ← sequence bound ends
        return first :: rest

def statement : Nat → Guarded StatementRef
  | 0 => exhausted
  | bound + 1 => enter .statement do
      let token ← peek
      match token.kind with
      | .ifWord =>
          let _ ← expect .ifWord
          let condition ← expression bound
          let (body, severalLines) ← block bound
          let (branches, otherwise) ← furtherBranches bound severalLines
          pushStatement (.branch ((condition.node, body) :: branches) otherwise)
      | .whileWord =>
          let _ ← expect .whileWord
          let condition ← expression bound
          let (body, severalLines) ← block bound
          closeCompound severalLines
          pushStatement (.whileLoop condition.node body)
      | .forWord =>
          let keyword ← expect .forWord
          let (item, _) ← name
          let _ ← expect .inWord
          let iterable ← expression bound
          let span ← merge keyword.span iterable.span
          let (body, severalLines) ← block bound
          closeCompound severalLines
          pushStatement (.forLoop item iterable.node body span)
      | .defWord =>
          let _ ← expect .defWord
          let (function, _) ← name
          let _ ← expect .leftParenthesis
          let names ← parameters bound
          let (body, severalLines) ← block bound
          closeCompound severalLines
          pushStatement (.define function names body)
      | .recordWord =>
          let keyword ← expect .recordWord
          let (record, recordSpan) ← name
          let span ← merge keyword.span recordSpan
          let body ← recordBody bound
          pushStatement (.record record body span)
      | _ =>
          let simple ← simpleStatement bound
          terminator
          return simple

def block : Nat → Guarded (Option StatementRef × Bool)
  | 0 => exhausted
  | bound + 1 => enter .block do
      match ← eatIf .colon with
      | some _ =>
          let simple ← simpleStatement bound
          terminator
          return (some simple, false)
      | none =>
          let token ← next
          match token.kind with
          | .newline =>
              let statements ← sequence bound Parse.blockEnds
              let first ← link statements
              return (first, true)
          | .endOfSource => refuse .unexpectedEnd token.span
          | kind => refuse (.unexpectedToken kind .colon) token.span

def furtherBranches : Nat → Bool →
    Guarded (List (ExpressionRef × Option StatementRef) × Option (Option StatementRef))
  | 0, _ => exhausted
  | bound + 1, severalLines => enter .furtherBranches do
      separators bound [.newline]
      match ← eatIf .elsifWord with
      | some _ =>
          let condition ← expression bound
          let (body, severalLines) ← block bound
          let (branches, otherwise) ← furtherBranches bound severalLines
          return ((condition.node, body) :: branches, otherwise)
      | none =>
          match ← eatIf .elseWord with
          | some _ =>
              let (body, severalLines) ← block bound
              closeCompound severalLines
              return ([], some body)
          | none =>
              closeCompound severalLines
              return ([], none)

def recordBody : Nat → Guarded (Option StatementRef)
  | 0 => exhausted
  | bound + 1 => enter .recordBody do
      let token ← peek
      match token.kind with
      | .semicolon | .endOfSource =>
          terminator
          return none
      | _ =>
          let (body, severalLines) ← block bound
          closeCompound severalLines
          return body

end

/-- A whole source. The script is given away. -/
def program (bound : Nat) : Guarded Script := do
  let statements ← sequence bound [.endOfSource]
  let _ ← expect .endOfSource
  let first ← link statements
  let desk ← get
  set { desk with script := Script.empty }
  return { desk.script with first }

end Guarded

end ScriptEngine
