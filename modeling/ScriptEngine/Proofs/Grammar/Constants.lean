import ScriptEngine.Proofs.Grammar.Growth

/-!
# The constants of parsed scripts

The parser makes constants of literals only, and none of them refers to an object. So
everything that a parsed script can get at is reached through names
(`Script.Parsed.plain`).
-/

set_option autoImplicit false

namespace ScriptEngine

/-- The value refers to no object. -/
def Value.Plain : Value → Prop
  | .none | .number _ | .text _ | .bool _ => True
  | .array _ | .record _ | .function _ => False

/-- If the node is a constant, then it refers to no object. -/
def Expression.Plain : Expression → Prop
  | .constant value _ => value.Plain
  | _ => True

def Script.Plain (script : Script) : Prop :=
  ∀ expression ∈ script.expressions, expression.Plain

theorem Script.plain_empty : Script.empty.Plain := by
  intro expression member
  simp [Script.empty] at member

namespace Parse

/-- The production adds no constant that refers to an object. -/
def KeepsPlain {α : Type} (production : Parse α) : Prop :=
  ∀ (cursor after : Cursor) (result : α), production cursor = .ok (result, after) →
    cursor.script.Plain → after.script.Plain

theorem KeepsScript.plain {α : Type} {production : Parse α} (keeps : KeepsScript production) :
    KeepsPlain production := by
  intro cursor after result parsed plain
  rw [keeps cursor after result parsed]
  exact plain

theorem KeepsPlain.bind {α β : Type} {first : Parse α} {following : α → Parse β}
    (firstKeeps : KeepsPlain first) (followingKeeps : ∀ value, KeepsPlain (following value)) :
    KeepsPlain (first >>= following) := by
  intro cursor after result parsed plain
  obtain ⟨value, middle, firstOk, followingOk⟩ := bind_ok parsed
  exact followingKeeps value _ _ _ followingOk (firstKeeps _ _ _ firstOk plain)

theorem keepsPlain_pure {α : Type} (value : α) : KeepsPlain (pure value) :=
  (keepsScript_pure value).plain

theorem keepsPlain_refuse {α : Type} (cause : ParseCause) (span : Span) :
    KeepsPlain (refuse cause span : Parse α) :=
  (keepsScript_refuse cause span).plain

theorem keepsPlain_exhausted {α : Type} : KeepsPlain (exhausted : Parse α) := by
  intro cursor after result parsed
  cases parsed

theorem keepsPlain_pushExpression {node : Expression} (plain : node.Plain) :
    KeepsPlain (pushExpression node) := by
  intro cursor after reference parsed before expression member
  cases parsed
  rcases Array.mem_push.mp member with old | rfl
  · exact before expression old
  · exact plain

theorem keepsPlain_pushStatement (node : Statement) : KeepsPlain (pushStatement node) := by
  intro cursor after reference parsed plain
  cases parsed
  exact plain

theorem keepsPlain_link (sequence : List StatementRef) : KeepsPlain (link sequence) := by
  intro cursor after head parsed plain expression member
  cases parsed
  rw [Script.link_expressions] at member
  exact plain expression member

/-!
## Expressions
-/

/-- What is pushed and given as an expression. -/
private theorem keepsPlain_given {node : Expression} (plain : node.Plain) (span : Span)
    (target : Option AssignTarget) :
    KeepsPlain (do
      let reference ← pushExpression node
      return (⟨reference, span, target⟩ : ParsedExpression)) :=
  (keepsPlain_pushExpression plain).bind fun _ => keepsPlain_pure _

theorem MiddleOperator.plain_node (operator : MiddleOperator) (left right : ExpressionRef)
    (span : Span) : (operator.node left right span).Plain := by
  cases operator <;> trivial

/-- The productions for expressions add plain constants only. -/
structure PlainExpressions (bound : Nat) : Prop where
  operand : KeepsPlain (operand bound)
  unary : ∀ operator start, KeepsPlain (unary bound operator start)
  listUntil : ∀ closing, KeepsPlain (listUntil bound closing)
  suffixOf : ∀ left, KeepsPlain (suffixOf bound left)
  expressionFrom : ∀ power, KeepsPlain (expressionFrom bound power)
  continued : ∀ power left, KeepsPlain (continued bound power left)

private theorem plain_operand {bound : Nat} (ih : PlainExpressions bound) :
    KeepsPlain (operand (bound + 1)) := by
  refine (keepsScript_next.plain).bind fun token => ?_
  split
  · exact keepsPlain_refuse _ _
  iterate 5 exact keepsPlain_given (by trivial) _ _
  · exact keepsPlain_given (by trivial) _ _
  · exact ih.unary _ _
  · exact ih.unary _ _
  · exact (ih.expressionFrom 0).bind fun inner =>
      (keepsScript_expect _).plain.bind fun close => keepsPlain_pure _
  · exact (ih.listUntil _).bind fun list => keepsPlain_given (by trivial) _ _
  · exact keepsPlain_refuse _ _

private theorem plain_listUntil {bound : Nat} (ih : PlainExpressions bound)
    (closing : TokenKind) : KeepsPlain (listUntil (bound + 1) closing) := by
  refine (keepsScript_accept? closing).plain.bind fun closed => ?_
  split
  · exact keepsPlain_pure _
  · refine (ih.expressionFrom 0).bind fun item =>
      (keepsScript_accept _).plain.bind fun more => ?_
    split
    · exact (ih.listUntil closing).bind fun rest => keepsPlain_pure _
    · exact (keepsScript_expect _).plain.bind fun close => keepsPlain_pure _

private theorem plain_suffixOf {bound : Nat} (ih : PlainExpressions bound)
    (left : ParsedExpression) : KeepsPlain (suffixOf (bound + 1) left) := by
  refine keepsScript_next.plain.bind fun token => ?_
  split
  · exact (ih.listUntil _).bind fun list => keepsPlain_given (by trivial) _ _
  · exact (ih.expressionFrom 0).bind fun index =>
      (keepsScript_expect _).plain.bind fun close => keepsPlain_given (by trivial) _ _
  · exact keepsScript_name.plain.bind fun member =>
      (keepsPlain_pushExpression (by trivial)).bind fun name => keepsPlain_given (by trivial) _ _

private theorem plain_continued {bound : Nat} (ih : PlainExpressions bound) (power : Nat)
    (left : ParsedExpression) : KeepsPlain (continued (bound + 1) power left) := by
  refine keepsScript_peek.plain.bind fun token => ?_
  split
  iterate 3
    split
    · exact keepsPlain_pure _
    · exact (ih.suffixOf left).bind fun extended => ih.continued power extended
  · split
    · exact keepsPlain_pure _
    · next operator _ =>
        split
        · exact keepsPlain_pure _
        · exact keepsScript_skip.plain.bind fun _ => (ih.expressionFrom _).bind fun right =>
            (keepsPlain_pushExpression (MiddleOperator.plain_node operator _ _ _)).bind
              fun node => ih.continued power _

theorem plainExpressions (bound : Nat) : PlainExpressions bound := by
  induction bound with
  | zero => constructor <;> intros <;> exact keepsPlain_exhausted
  | succ bound ih =>
      exact {
        operand := plain_operand ih
        unary := fun operator start => (ih.expressionFrom _).bind fun inner =>
          keepsPlain_given (by trivial) _ _
        listUntil := plain_listUntil ih
        suffixOf := plain_suffixOf ih
        expressionFrom := fun power => ih.operand.bind fun left => ih.continued power left
        continued := plain_continued ih }

theorem plain_expression (bound : Nat) : KeepsPlain (expression bound) :=
  (plainExpressions bound).expressionFrom 0

/-!
## Statements
-/

private theorem plain_printedRest (bound : Nat) : KeepsPlain (printedRest bound) := by
  induction bound with
  | zero => exact keepsPlain_exhausted
  | succ bound ih =>
      refine (keepsScript_accept _).plain.bind fun more => ?_
      split
      · exact (plain_expression bound).bind fun value => ih.bind fun rest => keepsPlain_pure _
      · exact keepsPlain_pure _

private theorem plain_assignmentOrExpression (bound : Nat) :
    KeepsPlain (assignmentOrExpression bound) := by
  refine (plain_expression bound).bind fun left => keepsScript_peek.plain.bind fun token => ?_
  split
  · exact keepsPlain_pushStatement _
  · refine keepsScript_skip.plain.bind fun _ => ?_
    split
    · exact keepsPlain_refuse _ _
    · exact (plain_expression bound).bind fun value => keepsPlain_pushStatement _

private theorem plain_simpleStatement (bound : Nat) : KeepsPlain (simpleStatement bound) := by
  refine keepsScript_peek.plain.bind fun token => ?_
  split
  · refine keepsScript_skip.plain.bind fun _ => keepsScript_atTerminator.plain.bind fun ended => ?_
    split
    · exact keepsPlain_pushStatement _
    · exact (plain_expression bound).bind fun value =>
        (plain_printedRest bound).bind fun rest => keepsPlain_pushStatement _
  · exact keepsScript_skip.plain.bind fun _ => keepsPlain_pushStatement _
  · exact keepsScript_skip.plain.bind fun _ => keepsPlain_pushStatement _
  · refine keepsScript_skip.plain.bind fun _ =>
      (keepsScript_accept? _).plain.bind fun number? => ?_
    split
    · exact keepsPlain_pushStatement _
    · split
      · exact keepsPlain_refuse _ _
      · exact keepsPlain_pushStatement _
  · refine keepsScript_skip.plain.bind fun _ => keepsScript_atTerminator.plain.bind fun ended => ?_
    split
    · exact keepsPlain_pushStatement _
    · exact (plain_expression bound).bind fun value => keepsPlain_pushStatement _
  · exact keepsScript_skip.plain.bind fun _ => keepsScript_name.plain.bind fun deleted =>
      keepsPlain_pushStatement _
  · exact plain_assignmentOrExpression bound

/-- The productions for statements add plain constants only. -/
structure PlainStatements (bound : Nat) : Prop where
  sequence : ∀ ends, KeepsPlain (sequence bound ends)
  statement : KeepsPlain (statement bound)
  block : KeepsPlain (block bound)
  furtherBranches : ∀ severalLines, KeepsPlain (furtherBranches bound severalLines)
  recordBody : KeepsPlain (recordBody bound)

private theorem plain_sequence {bound : Nat} (ih : PlainStatements bound)
    (ends : List TokenKind) : KeepsPlain (sequence (bound + 1) ends) := by
  refine (keepsScript_skipKinds _).plain.bind fun _ => keepsScript_peek.plain.bind fun token => ?_
  split
  · exact keepsPlain_pure _
  · split
    · exact keepsPlain_refuse _ _
    · exact ih.statement.bind fun first => (ih.sequence ends).bind fun rest => keepsPlain_pure _

private theorem plain_statement {bound : Nat} (ih : PlainStatements bound) :
    KeepsPlain (statement (bound + 1)) := by
  have closed (severalLines : Bool) (node : Statement) :
      KeepsPlain (do closeCompound severalLines; pushStatement node) :=
    (keepsScript_closeCompound _).plain.bind fun _ => keepsPlain_pushStatement _
  refine keepsScript_peek.plain.bind fun token => ?_
  split
  · exact keepsScript_skip.plain.bind fun _ => (plain_expression bound).bind fun condition =>
      ih.block.bind fun body => (ih.furtherBranches _).bind fun branches =>
        keepsPlain_pushStatement _
  · exact keepsScript_skip.plain.bind fun _ => (plain_expression bound).bind fun condition =>
      ih.block.bind fun body => closed _ _
  · exact keepsScript_skip.plain.bind fun _ => keepsScript_name.plain.bind fun item =>
      (keepsScript_expect _).plain.bind fun _ => (plain_expression bound).bind fun iterable =>
        ih.block.bind fun body => closed _ _
  · exact keepsScript_skip.plain.bind fun _ => keepsScript_name.plain.bind fun function =>
      (keepsScript_expect _).plain.bind fun _ => (keepsScript_parameters _).plain.bind fun names =>
        ih.block.bind fun body => closed _ _
  · exact keepsScript_skip.plain.bind fun _ => keepsScript_name.plain.bind fun record =>
      ih.recordBody.bind fun body => keepsPlain_pushStatement _
  · exact (plain_simpleStatement bound).bind fun simple =>
      keepsScript_terminator.plain.bind fun _ => keepsPlain_pure _

private theorem plain_block {bound : Nat} (ih : PlainStatements bound) :
    KeepsPlain (block (bound + 1)) := by
  refine (keepsScript_accept _).plain.bind fun colon => ?_
  split
  · exact (plain_simpleStatement bound).bind fun simple =>
      keepsScript_terminator.plain.bind fun _ => keepsPlain_pure _
  · refine keepsScript_next.plain.bind fun token => ?_
    split
    · exact (ih.sequence _).bind fun statements => (keepsPlain_link _).bind fun first =>
        keepsPlain_pure _
    · exact keepsPlain_refuse _ _
    · exact keepsPlain_refuse _ _

private theorem plain_furtherBranches {bound : Nat} (ih : PlainStatements bound)
    (severalLines : Bool) : KeepsPlain (furtherBranches (bound + 1) severalLines) := by
  refine (keepsScript_skipKinds _).plain.bind fun _ =>
    (keepsScript_accept _).plain.bind fun tested => ?_
  split
  · exact (plain_expression bound).bind fun condition => ih.block.bind fun body =>
      (ih.furtherBranches _).bind fun branches => keepsPlain_pure _
  · refine (keepsScript_accept _).plain.bind fun otherwise => ?_
    split
    · exact ih.block.bind fun body => (keepsScript_closeCompound _).plain.bind fun _ =>
        keepsPlain_pure _
    · exact (keepsScript_closeCompound _).plain.bind fun _ => keepsPlain_pure _

private theorem plain_recordBody {bound : Nat} (ih : PlainStatements bound) :
    KeepsPlain (recordBody (bound + 1)) := by
  refine keepsScript_peek.plain.bind fun token => ?_
  split
  · exact keepsScript_terminator.plain.bind fun _ => keepsPlain_pure _
  · exact keepsScript_terminator.plain.bind fun _ => keepsPlain_pure _
  · exact ih.block.bind fun body => (keepsScript_closeCompound _).plain.bind fun _ =>
      keepsPlain_pure _

theorem plainStatements (bound : Nat) : PlainStatements bound := by
  induction bound with
  | zero => constructor <;> intros <;> exact keepsPlain_exhausted
  | succ bound ih =>
      exact ⟨plain_sequence ih, plain_statement ih, plain_block ih, plain_furtherBranches ih,
        plain_recordBody ih⟩

theorem program_plain {bound : Nat} {cursor after : Cursor} {script : Script}
    (parsed : program bound cursor = .ok (script, after)) (plain : cursor.script.Plain) :
    script.Plain := by
  simp only [program] at parsed
  obtain ⟨row, first, rowParsed, parsed⟩ := bind_ok parsed
  obtain ⟨token, second, tokenRead, parsed⟩ := bind_ok parsed
  obtain ⟨head, third, linked, parsed⟩ := bind_ok parsed
  have read := (plainStatements bound).sequence _ _ _ _ rowParsed plain
  have ended := (keepsScript_expect _).plain _ _ _ tokenRead read
  have joined := keepsPlain_link _ _ _ _ linked ended
  cases parsed
  exact joined

end Parse

namespace Cursor

theorem Reached.plain {cursor : Cursor} (reached : cursor.Reached) : cursor.script.Plain := by
  induction reached with
  | source source => exact Script.plain_empty
  | @expression cursor after node reached taken ih =>
      obtain ⟨result, _, parsed⟩ := takeExpression_ok taken
      exact Parse.plain_expression _ _ _ _ parsed ih

end Cursor

/-- A script that the parser built has plain constants only. -/
theorem Script.Parsed.plain {script : Script} (parsed : script.Parsed) : script.Plain := by
  cases parsed with
  | building reached => exact reached.plain
  | @finished cursor script reached finished =>
      obtain ⟨last, parsed⟩ := Cursor.finish_ok finished
      exact Parse.program_plain parsed reached.plain

end ScriptEngine
