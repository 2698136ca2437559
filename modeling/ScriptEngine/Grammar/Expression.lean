import ScriptEngine.Grammar.Cursor
import ScriptEngine.Token.Literal

/-!
# The grammar of expressions

Operators bind by numbers: an operator may continue an expression that was
begun for a binding power of at most its left power, and its right operand is
read for its right power. The right power of a binary operator is one more than
the left one, so operators of one level group to the left. Calls, indexing and
member access bind strongest.
-/

set_option autoImplicit false

namespace ScriptEngine

/-- An operator that stands between two operands. -/
inductive MiddleOperator where
  | binary (operator : BinaryOperator)
  | logical (operator : LogicalOperator)
deriving DecidableEq, Repr

def UnaryOperator.bindingPower : UnaryOperator → Nat
  | .not => 5
  | .minus => 13

def BinaryOperator.bindingPower : BinaryOperator → Nat
  | .multiply | .divide | .modulo => 11
  | .add | .subtract => 9
  | .equal | .notEqual | .lessThan | .lessThanOrEqual | .greaterThan
  | .greaterThanOrEqual | .contained => 7

def LogicalOperator.bindingPower : LogicalOperator → Nat
  | .and => 3
  | .or => 1

namespace MiddleOperator

def bindingPower : MiddleOperator → Nat
  | binary operator => operator.bindingPower
  | logical operator => operator.bindingPower

def ofKind? : TokenKind → Option MiddleOperator
  | .plus => some (binary .add)
  | .minus => some (binary .subtract)
  | .star => some (binary .multiply)
  | .slash => some (binary .divide)
  | .percent => some (binary .modulo)
  | .equalEqual => some (binary .equal)
  | .bangEqual => some (binary .notEqual)
  | .lessThan => some (binary .lessThan)
  | .lessThanEqual => some (binary .lessThanOrEqual)
  | .greaterThan => some (binary .greaterThan)
  | .greaterThanEqual => some (binary .greaterThanOrEqual)
  | .inWord => some (binary .contained)
  | .andWord => some (logical .and)
  | .orWord => some (logical .or)
  | _ => none

def node (operator : MiddleOperator) (left right : ExpressionRef) (span : Span) : Expression :=
  match operator with
  | binary operator => .binary operator left right span
  | logical operator => .shortCircuit operator left right span

end MiddleOperator

/-- The power of calls, indexing and member access. -/
def suffixPower : Nat := 15

/-- An expression that has been read: its node, the source it covers, and what
an assignment to it would write to. Parentheses widen the source that is
covered and make an expression unfit for assignment. -/
structure ParsedExpression where
  node : ExpressionRef
  span : Span
  target : Option AssignTarget

namespace Parse

def literal (value : Value) (span : Span) : Parse ParsedExpression := do
  let node ← pushExpression (.constant value span)
  return ⟨node, span, none⟩

mutual

/-- An expression that no operator continues: an atom, a unary operator with its
operand, a parenthesised expression or an array. -/
def operand : Nat → Parse ParsedExpression
  | 0 => exhausted
  | bound + 1 => do
      let token ← next
      match token.kind with
      | .endOfSource => refuse .unexpectedEnd token.span
      | .number => literal (.number token.number) token.span
      | .text => literal (.text token.text) token.span
      | .trueWord => literal (.bool true) token.span
      | .falseWord => literal (.bool false) token.span
      | .noneWord => literal .none token.span
      | .identifier =>
          let node ← pushExpression (.name token.lexeme token.span)
          return ⟨node, token.span, some (.name token.lexeme)⟩
      | .minus => unary bound .minus token.span
      | .notWord => unary bound .not token.span
      | .leftParenthesis =>
          let inner ← expressionFrom bound 0
          let close ← expect .rightParenthesis
          return ⟨inner.node, token.span.merge close.span, none⟩
      | .leftBracket =>
          let (elements, close) ← listUntil bound .rightBracket
          let span := token.span.merge close.span
          let node ← pushExpression (.array elements span)
          return ⟨node, span, none⟩
      | kind => refuse (.nonExpression kind) token.span

/-- The operand of a unary operator that stands at `start`. -/
def unary : Nat → UnaryOperator → Span → Parse ParsedExpression
  | 0, _, _ => exhausted
  | bound + 1, operator, start => do
      let inner ← expressionFrom bound operator.bindingPower
      let span := start.merge inner.span
      let node ← pushExpression (.unary operator inner.node span)
      return ⟨node, span, none⟩

/-- Expressions with commas between them up to the closing token, which is taken.
A comma may stand behind the last one. -/
def listUntil : Nat → TokenKind → Parse (List ExpressionRef × Token)
  | 0, _ => exhausted
  | bound + 1, closing => do
      match ← accept? closing with
      | some close => return ([], close)
      | none =>
          let item ← expressionFrom bound 0
          if ← accept .comma then
            let (items, close) ← listUntil bound closing
            return (item.node :: items, close)
          else
            let close ← expect closing
            return ([item.node], close)

/-- A call, an index or a member access behind `left`. The token that shows which
of the three it is has not been taken. -/
def suffixOf : Nat → ParsedExpression → Parse ParsedExpression
  | 0, _ => exhausted
  | bound + 1, left => do
      let token ← next
      match token.kind with
      | .leftParenthesis =>
          let (arguments, close) ← listUntil bound .rightParenthesis
          let span := left.span.merge close.span
          let node ← pushExpression (.call left.node arguments span)
          return ⟨node, span, none⟩
      | .leftBracket =>
          let index ← expressionFrom bound 0
          let close ← expect .rightBracket
          let span := left.span.merge close.span
          let node ← pushExpression (.element left.node index.node span)
          return ⟨node, span, some (.element left.node index.node)⟩
      | _ =>
          let (memberName, memberSpan) ← name
          let member ← pushExpression (.name memberName memberSpan)
          let span := left.span.merge memberSpan
          let node ← pushExpression (.member left.node member span)
          return ⟨node, span, some (.member left.node memberName)⟩

/-- An expression in a place where only operators of at least the given power
may continue it. -/
def expressionFrom : Nat → Nat → Parse ParsedExpression
  | 0, _ => exhausted
  | bound + 1, power => do
      let left ← operand bound
      continued bound power left

/-- Continues `left` as far as operators of at least the given power go. -/
def continued : Nat → Nat → ParsedExpression → Parse ParsedExpression
  | 0, _, _ => exhausted
  | bound + 1, power, left => do
      let token ← peek
      match token.kind with
      | .leftParenthesis | .leftBracket | .dot =>
          if suffixPower < power then
            return left
          else
            let extended ← suffixOf bound left
            continued bound power extended
      | kind =>
          match MiddleOperator.ofKind? kind with
          | none => return left
          | some operator =>
              if operator.bindingPower < power then
                return left
              else
                skip
                let right ← expressionFrom bound (operator.bindingPower + 1)
                let span := left.span.merge right.span
                let node ← pushExpression (operator.node left.node right.node span)
                continued bound power ⟨node, span, none⟩

end

def expression (bound : Nat) : Parse ParsedExpression :=
  expressionFrom bound 0

end Parse

end ScriptEngine
