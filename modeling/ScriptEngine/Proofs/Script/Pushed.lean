import ScriptEngine.Proofs.Script.Growth

/-!
# Trees of new nodes

A node that is pushed spells a tree when its parts are trees in the script so far. A
compound statement comes right behind the slots that its bodies fill.
-/

set_option autoImplicit false

namespace ScriptEngine

variable {script : Script}

/-!
## Expressions
-/

namespace ExpressionTree

/-- The tree is built from a node and from what the parts of the node spell. -/
def BuiltFrom (script : Script) : ExpressionTree → Expression → Prop
  | .constant value span, node => node = .constant value span
  | .name identifier span, node => node = .name identifier span
  | .unary operator operand span, node =>
      ∃ inner, node = .unary operator inner span ∧ operand.At script inner
  | .binary operator left right span, node =>
      ∃ first second, node = .binary operator first second span ∧ left.At script first ∧
        right.At script second
  | .shortCircuit operator left right span, node =>
      ∃ first second, node = .shortCircuit operator first second span ∧ left.At script first ∧
        right.At script second
  | .member object identifier nameSpan span, node =>
      ∃ inner last, node = .member inner last span ∧ object.At script inner ∧
        script.expression? last = some (.name identifier nameSpan)
  | .element object position span, node =>
      ∃ first second, node = .element first second span ∧ object.At script first ∧
        position.At script second
  | .array elements span, node =>
      ∃ items, node = .array items span ∧
        AllAt script elements items script.expressions.size
  | .call callee arguments span, node =>
      ∃ first items, node = .call first items span ∧ callee.At script first ∧
        AllAt script arguments items script.expressions.size

theorem BuiltFrom.push {tree : ExpressionTree} {node : Expression}
    (built : tree.BuiltFrom script node) :
    tree.At (script.pushExpression node).2 (script.pushExpression node).1 := by
  have grown := (script.extends_pushExpression node).expressions
  have found := script.expression?_pushExpression node
  have part {inner : ExpressionRef} {operand : ExpressionTree} (stands : operand.At script inner) :
      inner.index < (script.pushExpression node).1.index ∧
        operand.At (script.pushExpression node).2 inner :=
    ⟨stands.present, stands.grow grown operand⟩
  cases tree with
  | constant | name =>
      obtain rfl := built
      exact found
  | unary =>
      obtain ⟨inner, rfl, operandAt⟩ := built
      exact ⟨inner, found, part operandAt⟩
  | binary | shortCircuit | element =>
      obtain ⟨first, second, rfl, firstAt, secondAt⟩ := built
      exact ⟨first, second, found, part firstAt, part secondAt⟩
  | member =>
      obtain ⟨inner, last, rfl, objectAt, lastFound⟩ := built
      exact ⟨inner, last, found, part objectAt, (Array.getElem?_eq_some_iff.mp lastFound).choose,
        grown.expression? lastFound⟩
  | array elements =>
      obtain ⟨items, rfl, elementsAt⟩ := built
      exact ⟨items, found, elementsAt.grow grown elements⟩
  | call callee arguments =>
      obtain ⟨first, items, rfl, calleeAt, argumentsAt⟩ := built
      exact ⟨first, items, found, part calleeAt, argumentsAt.grow grown arguments⟩

end ExpressionTree

/-!
## Statements
-/

namespace StatementTree

/-- The tree is built from a statement and from what the parts of the statement spell. Its
bodies fill the slots from `start` up to `stop`. -/
def BuiltFrom (script : Script) (start stop : Nat) : StatementTree → Statement → Prop
  | .expression value, node =>
      ∃ inner, node = .expression inner ∧ value.At script inner ∧ start = stop
  | .print values, node =>
      ∃ nodes, node = .print nodes ∧
        ExpressionTree.AllAt script values nodes script.expressions.size ∧ start = stop
  | .assignName name operator value span, node =>
      ∃ inner, node = .assign (.name name) operator inner span ∧ value.At script inner ∧
        start = stop
  | .assignMember object name operator value span, node =>
      ∃ target inner, node = .assign (.member target name) operator inner span ∧
        object.At script target ∧ value.At script inner ∧ start = stop
  | .assignElement object index operator value span, node =>
      ∃ target position inner, node = .assign (.element target position) operator inner span ∧
        object.At script target ∧ index.At script position ∧ value.At script inner ∧ start = stop
  | .branch branches, node =>
      ∃ bodies otherwise, node = .branch bodies otherwise ∧
        branches.Laid script bodies otherwise start stop
  | .whileLoop condition body, node =>
      ∃ inner head, node = .whileLoop inner head ∧ condition.At script inner ∧
        BlockLaid script body head start stop
  | .forLoop item iterable body span, node =>
      ∃ inner head, node = .forLoop item inner head span ∧ iterable.At script inner ∧
        BlockLaid script body head start stop
  | .breakLoops count span, node => node = .breakLoops count span ∧ start = stop
  | .continueLoop span, node => node = .continueLoop span ∧ start = stop
  | .returnValue none, node => node = .returnValue none ∧ start = stop
  | .returnValue (some value), node =>
      ∃ inner, node = .returnValue (some inner) ∧ value.At script inner ∧ start = stop
  | .pass, node => node = .pass ∧ start = stop
  | .delete name span, node => node = .delete name span ∧ start = stop
  | .define name parameters entry body, node =>
      node = .define name parameters entry ∧ BlockLaid script body entry start stop
  | .record name body span, node =>
      ∃ head, node = .record name head span ∧ BlockLaid script body head start stop

theorem BuiltFrom.push {tree : StatementTree} {node : Statement} {start : Nat}
    (built : tree.BuiltFrom script start script.statements.size node) :
    tree.Laid (script.pushStatement node).2 start (script.pushStatement node).1 := by
  have grown := script.extends_pushStatement node
  have found := script.statement?_pushStatement node
  have bodyLaid {body : List StatementTree} {head : Option StatementRef}
      (laid : BlockLaid script body head start script.statements.size) :
      BlockLaid (script.pushStatement node).2 body head start
        (script.pushStatement node).1.index :=
    laid.keep grown.expressions body fun index _ upper => grown.statements index upper
  have part {inner : ExpressionRef} {operand : ExpressionTree} (stands : operand.At script inner) :
      operand.At (script.pushStatement node).2 inner :=
    stands.grow grown.expressions operand
  cases tree with
  | expression =>
      obtain ⟨inner, rfl, expressionAt, own⟩ := built
      exact ⟨inner, found, part expressionAt, own⟩
  | print values =>
      obtain ⟨nodes, rfl, valuesAt, own⟩ := built
      exact ⟨nodes, found, valuesAt.grow grown.expressions values, own⟩
  | assignName =>
      obtain ⟨inner, rfl, valueAt, own⟩ := built
      exact ⟨inner, found, part valueAt, own⟩
  | assignMember =>
      obtain ⟨target, inner, rfl, objectAt, valueAt, own⟩ := built
      exact ⟨target, inner, found, part objectAt, part valueAt, own⟩
  | assignElement =>
      obtain ⟨target, position, inner, rfl, objectAt, indexAt, valueAt, own⟩ := built
      exact ⟨target, position, inner, found, part objectAt, part indexAt, part valueAt, own⟩
  | branch branches =>
      obtain ⟨bodies, otherwise, rfl, branchesLaid⟩ := built
      exact ⟨bodies, otherwise, found, branchesLaid.keep grown.expressions branches
        fun index _ upper => grown.statements index upper⟩
  | whileLoop | forLoop =>
      obtain ⟨inner, head, rfl, conditionAt, laid⟩ := built
      exact ⟨inner, head, found, part conditionAt, bodyLaid laid⟩
  | breakLoops | continueLoop | pass | delete =>
      obtain ⟨rfl, own⟩ := built
      exact ⟨found, own⟩
  | returnValue value =>
      cases value with
      | none =>
          obtain ⟨rfl, own⟩ := built
          exact ⟨found, own⟩
      | some value =>
          obtain ⟨inner, rfl, valueAt, own⟩ := built
          exact ⟨inner, found, part valueAt, own⟩
  | define =>
      obtain ⟨rfl, laid⟩ := built
      exact ⟨found, bodyLaid laid⟩
  | record =>
      obtain ⟨head, rfl, laid⟩ := built
      exact ⟨head, found, bodyLaid laid⟩

end StatementTree

end ScriptEngine
