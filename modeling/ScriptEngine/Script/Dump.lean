import ScriptEngine.Decimal.Writing
import ScriptEngine.Dump
import ScriptEngine.Script.Basic
import ScriptEngine.Token.Listing

/-!
# Debug output of scripts
-/

set_option autoImplicit false

namespace ScriptEngine

def ExpressionRef.dump (reference : ExpressionRef) : Dump :=
  .call "ExpressionRef" [.atom (toString reference.index)]

def StatementRef.dump (reference : StatementRef) : Dump :=
  .call "StatementRef" [.atom (toString reference.index)]

/-- A body or a link: the statement it refers to, if any. -/
def StatementRef.dumpOption (reference : Option StatementRef) : Dump :=
  .option (reference.map StatementRef.dump)

/-- A constant. What arrays, records and functions hold is not part of a script. -/
def Value.dumpConstant : Value → Dump
  | .none => .atom "None"
  | .number content => .call "Number" [.atom (NumberStyle.explicit.write content)]
  | .text content => .call "Text" [.text content]
  | .bool truth => .call "Bool" [.atom (if truth then "true" else "false")]
  | .array _ => .atom "Array"
  | .record _ => .atom "Record"
  | .function _ => .atom "Function"

def UnaryOperator.debugName : UnaryOperator → String
  | .minus => "Minus"
  | .not => "Not"

def BinaryOperator.debugName : BinaryOperator → String
  | .add => "Add"
  | .subtract => "Subtract"
  | .multiply => "Multiply"
  | .divide => "Divide"
  | .modulo => "Modulo"
  | .equal => "Equal"
  | .notEqual => "NotEqual"
  | .lessThan => "LessThan"
  | .lessThanOrEqual => "LessThanOrEqual"
  | .greaterThan => "GreaterThan"
  | .greaterThanOrEqual => "GreaterThanOrEqual"
  | .contained => "In"

def LogicalOperator.debugName : LogicalOperator → String
  | .and => "And"
  | .or => "Or"

def AssignOperator.debugName : AssignOperator → String
  | .set => "Set"
  | .add => "Add"
  | .subtract => "Subtract"

/-- The fields of an expression, with the positions of its operands. -/
def Expression.dump : Expression → Dump
  | .constant value span =>
      .fields "Constant" [("value", value.dumpConstant), ("span", span.dump)]
  | .name word span =>
      .fields "Name" [("name", .text word), ("span", span.dump)]
  | .unary operator operand span =>
      .fields "Unary" [("operator", .atom operator.debugName), ("operand", operand.dump),
        ("span", span.dump)]
  | .binary operator left right span =>
      .fields "Binary" [("operator", .atom operator.debugName), ("lhs", left.dump),
        ("rhs", right.dump), ("span", span.dump)]
  | .shortCircuit operator left right span =>
      .fields "ShortCircuit" [("operator", .atom operator.debugName), ("lhs", left.dump),
        ("rhs", right.dump), ("span", span.dump)]
  | .member object inner span =>
      .fields "Member" [("object", object.dump), ("member", inner.dump), ("span", span.dump)]
  | .element object index span =>
      .fields "Index" [("object", object.dump), ("index", index.dump), ("span", span.dump)]
  | .array elements span =>
      .fields "Array" [("elements", .items (elements.map ExpressionRef.dump)),
        ("span", span.dump)]
  | .call callee arguments span =>
      .fields "Call" [("callee", callee.dump),
        ("arguments", .items (arguments.map ExpressionRef.dump)), ("span", span.dump)]
  | .silent span => .fields "Silent" [("span", span.dump)]
  | .scopeNames span => .fields "Scope" [("span", span.dump)]

def AssignTarget.dump : AssignTarget → Dump
  | .name word => .call "Name" [.text word]
  | .member object word => .fields "Member" [("object", object.dump), ("name", .text word)]
  | .element object index => .fields "Index" [("object", object.dump), ("index", index.dump)]

/-- The fields of a statement, with the positions of its expressions and bodies. -/
def Statement.dump : Statement → Dump
  | .expression node => .fields "Expression" [("expression", node.dump)]
  | .print values => .fields "Print" [("values", .items (values.map ExpressionRef.dump))]
  | .assign target operator value span =>
      .fields "Assign" [("target", target.dump), ("operator", .atom operator.debugName),
        ("value", value.dump), ("span", span.dump)]
  | .branch branches otherwise =>
      .fields "If"
        [("branches", .items (branches.map fun (condition, body) =>
            .call "" [condition.dump, StatementRef.dumpOption body])),
          ("otherwise", .option (otherwise.map StatementRef.dumpOption))]
  | .whileLoop condition body =>
      .fields "While" [("condition", condition.dump), ("body", StatementRef.dumpOption body)]
  | .forLoop item iterable body span =>
      .fields "For" [("variable", .text item), ("iterable", iterable.dump),
        ("body", StatementRef.dumpOption body), ("span", span.dump)]
  | .breakLoops count span =>
      .fields "Break" [("count", .atom (toString count)), ("span", span.dump)]
  | .continueLoop span => .fields "Continue" [("span", span.dump)]
  | .returnValue value =>
      .fields "Return" [("value", .option (value.map ExpressionRef.dump))]
  | .pass => .atom "Pass"
  | .delete word span => .fields "Delete" [("name", .text word), ("span", span.dump)]
  | .define word parameters body =>
      .fields "Function" [("name", .text word), ("parameters", .items (parameters.map Dump.text)),
        ("body", StatementRef.dumpOption body)]
  | .record word body span =>
      .fields "Record" [("name", .text word), ("body", StatementRef.dumpOption body),
        ("span", span.dump)]

def StatementSlot.dump (slot : StatementSlot) : Dump :=
  .fields "StatementSlot"
    [("node", slot.node.dump), ("next", StatementRef.dumpOption slot.next)]

/-- All nodes of a script in their order, and its first statement. -/
def Script.dump (script : Script) : Dump :=
  .fields "Script"
    [("statements", .items (script.statements.toList.map StatementSlot.dump)),
      ("expressions", .items (script.expressions.toList.map Expression.dump)),
      ("first", StatementRef.dumpOption script.first)]

end ScriptEngine
