import ScriptEngine.Source.Span
import ScriptEngine.Value.Basic

/-!
# Scripts

A script is an arena of expression and statement nodes that refer to each other
by position. Expressions form trees; statements are chained by `next` links
that are kept beside the nodes, and a compound statement refers to the first
statement of each of its bodies. Nothing here requires the references to be in
bounds; a node that is missing stands for one that does nothing.

Positions of nodes have no bound. Where they are kept in 32 bits the scripts are
the same as long as there are less than 2 to the power of 32 nodes of a kind.
-/

set_option autoImplicit false

namespace ScriptEngine

/-- The position of an expression in a script. -/
structure ExpressionRef where
  index : Nat
deriving DecidableEq, Repr

/-- The position of a statement in a script. -/
structure StatementRef where
  index : Nat
deriving DecidableEq, Repr

/-- The operators that stand before one operand. -/
inductive UnaryOperator where
  | minus
  | not
deriving DecidableEq, Repr

/-- The operators whose operands are always both evaluated. `contained` asks
whether the left operand is in the right one. -/
inductive BinaryOperator where
  | add
  | subtract
  | multiply
  | divide
  | modulo
  | equal
  | notEqual
  | lessThan
  | lessThanOrEqual
  | greaterThan
  | greaterThanOrEqual
  | contained
deriving DecidableEq, Repr

/-- The operators that evaluate their right operand only if the left one does not
decide. -/
inductive LogicalOperator where
  | and
  | or
deriving DecidableEq, Repr

/-- One node of an expression. The parser builds the first nine forms. The last
two are for scripts put together by hand: `silent` gives no value, and
`scopeNames` gives the member names of the record in whose scope it stands. -/
inductive Expression where
  | constant (value : Value) (span : Span)
  | name (name : String) (span : Span)
  | unary (operator : UnaryOperator) (operand : ExpressionRef) (span : Span)
  | binary (operator : BinaryOperator) (left right : ExpressionRef) (span : Span)
  | shortCircuit (operator : LogicalOperator) (left right : ExpressionRef) (span : Span)
  | member (object member : ExpressionRef) (span : Span)
  | element (object index : ExpressionRef) (span : Span)
  | array (elements : List ExpressionRef) (span : Span)
  | call (callee : ExpressionRef) (arguments : List ExpressionRef) (span : Span)
  | silent (span : Span)
  | scopeNames (span : Span)

/-- What an assignment writes to. -/
inductive AssignTarget where
  | name (name : String)
  | member (object : ExpressionRef) (name : String)
  | element (object index : ExpressionRef)
deriving DecidableEq, Repr

/-- How an assignment combines the old and the new value. -/
inductive AssignOperator where
  | set
  | add
  | subtract
deriving DecidableEq, Repr

/-- One statement. A body is given by its first statement, if it has any. -/
inductive Statement where
  | expression (expression : ExpressionRef)
  | print (values : List ExpressionRef)
  | assign (target : AssignTarget) (operator : AssignOperator) (value : ExpressionRef)
      (span : Span)
  | branch (branches : List (ExpressionRef × Option StatementRef))
      (otherwise : Option (Option StatementRef))
  | whileLoop (condition : ExpressionRef) (body : Option StatementRef)
  | forLoop (item : String) (iterable : ExpressionRef) (body : Option StatementRef)
      (span : Span)
  | breakLoops (count : Nat) (span : Span)
  | continueLoop (span : Span)
  | returnValue (value : Option ExpressionRef)
  | pass
  | delete (name : String) (span : Span)
  | define (name : String) (parameters : List String) (body : Option StatementRef)
  | record (name : String) (body : Option StatementRef) (span : Span)
deriving DecidableEq, Repr

/-- A statement and the one that follows it in the same sequence. -/
structure StatementSlot where
  node : Statement
  next : Option StatementRef
deriving DecidableEq, Repr

/-- The arena of nodes, and the statement that a run begins with. -/
structure Script where
  statements : Array StatementSlot
  expressions : Array Expression
  first : Option StatementRef

namespace Script

def empty : Script := ⟨#[], #[], none⟩

instance : Inhabited Script := ⟨empty⟩

def pushExpression (script : Script) (node : Expression) : ExpressionRef × Script :=
  (⟨script.expressions.size⟩, { script with expressions := script.expressions.push node })

def pushStatement (script : Script) (node : Statement) : StatementRef × Script :=
  (⟨script.statements.size⟩, { script with statements := script.statements.push ⟨node, none⟩ })

/-- Lets `following` come after `statement`. -/
def setNext (script : Script) (statement following : StatementRef) : Script :=
  { script with
    statements := script.statements.modify statement.index
      fun slot => { slot with next := some following } }

/-- Chains the statements so that each is followed by the one after it. -/
def link (script : Script) : List StatementRef → Script
  | statement :: following :: rest =>
      (script.setNext statement following).link (following :: rest)
  | _ => script

def expression? (script : Script) (reference : ExpressionRef) : Option Expression :=
  script.expressions[reference.index]?

def statement? (script : Script) (reference : StatementRef) : Option Statement :=
  script.statements[reference.index]?.map StatementSlot.node

def next (script : Script) (reference : StatementRef) : Option StatementRef :=
  script.statements[reference.index]?.bind StatementSlot.next

theorem expression?_pushExpression (script : Script) (node : Expression) :
    (script.pushExpression node).2.expression? (script.pushExpression node).1 = some node := by
  simp [pushExpression, expression?]

theorem statement?_pushStatement (script : Script) (node : Statement) :
    (script.pushStatement node).2.statement? (script.pushStatement node).1 = some node := by
  simp [pushStatement, statement?]

theorem statement?_setNext (script : Script) (statement following read : StatementRef) :
    (script.setNext statement following).statement? read = script.statement? read := by
  simp only [setNext, statement?, Array.getElem?_modify]
  split
  · cases script.statements[read.index]? <;> rfl
  · rfl

/-- After chaining, the one statement is followed by the other. -/
theorem next_setNext (script : Script) (statement following read : StatementRef)
    (present : statement.index < script.statements.size) :
    (script.setNext statement following).next read =
      if read = statement then some following else script.next read := by
  obtain ⟨statementIndex⟩ := statement
  obtain ⟨readIndex⟩ := read
  simp only [setNext, next, Array.getElem?_modify, StatementRef.mk.injEq]
  by_cases same : statementIndex = readIndex
  · subst same
    simp [present]
  · simp [same, Ne.symm same]

end Script

end ScriptEngine
