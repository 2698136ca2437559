import ScriptEngine.Proofs.Grammar.Growth
import ScriptEngine.Proofs.Token.Passing

/-!
# Parsing without places

The parser decides nothing by where a token stands; it only writes places down. So a parser
that reads the same items without their places goes through the same steps and builds the
same nodes without their places. `Parse.Unplaces` says this of a production, and it is
shown for each of them in turn.
-/

set_option autoImplicit false

namespace ScriptEngine

/-!
## Nodes and answers without places
-/

theorem Span.merge_nowhere : Span.nowhere.merge Span.nowhere = Span.nowhere := by
  decide

def Expression.unplaced : Expression → Expression
  | .constant value _ => .constant value .nowhere
  | .name identifier _ => .name identifier .nowhere
  | .unary operator operand _ => .unary operator operand .nowhere
  | .binary operator left right _ => .binary operator left right .nowhere
  | .shortCircuit operator left right _ => .shortCircuit operator left right .nowhere
  | .member object last _ => .member object last .nowhere
  | .element object index _ => .element object index .nowhere
  | .array elements _ => .array elements .nowhere
  | .call callee arguments _ => .call callee arguments .nowhere
  | .silent _ => .silent .nowhere
  | .scopeNames _ => .scopeNames .nowhere

def Statement.unplaced : Statement → Statement
  | .assign target operator value _ => .assign target operator value .nowhere
  | .forLoop item iterable body _ => .forLoop item iterable body .nowhere
  | .breakLoops count _ => .breakLoops count .nowhere
  | .continueLoop _ => .continueLoop .nowhere
  | .delete name _ => .delete name .nowhere
  | .record name body _ => .record name body .nowhere
  | statement => statement

def StatementSlot.unplaced (slot : StatementSlot) : StatementSlot :=
  { slot with node := slot.node.unplaced }

/-- The script without the places of its nodes. -/
def Script.unplaced (script : Script) : Script where
  statements := script.statements.map StatementSlot.unplaced
  expressions := script.expressions.map Expression.unplaced
  first := script.first

def Cursor.unplaced (cursor : Cursor) : Cursor where
  items := cursor.items.map LexicalItem.unplaced
  script := cursor.script.unplaced

def ParsedExpression.unplaced (parsed : ParsedExpression) : ParsedExpression :=
  { parsed with span := .nowhere }

def ParseCause.unplaced : ParseCause → ParseCause
  | .lexical failure => .lexical failure.unplaced
  | cause => cause

def ParseError.unplaced (failure : ParseError) : ParseError :=
  ⟨failure.cause.unplaced, .nowhere⟩

def ParseStop.unplaced : ParseStop → ParseStop
  | .refused failure left => .refused failure.unplaced left.unplaced
  | .exhausted => .exhausted

theorem MiddleOperator.unplaced_node (operator : MiddleOperator) (left right : ExpressionRef)
    (span : Span) :
    (operator.node left right span).unplaced = operator.node left right .nowhere := by
  cases operator <;> rfl

namespace Script

theorem unplaced_empty : empty.unplaced = empty := by
  simp [unplaced, empty]

variable (script : Script)

theorem unplaced_pushExpression (node : Expression) :
    script.unplaced.pushExpression node.unplaced =
      ((script.pushExpression node).1, (script.pushExpression node).2.unplaced) := by
  simp [pushExpression, unplaced]

theorem unplaced_pushStatement (node : Statement) :
    script.unplaced.pushStatement node.unplaced =
      ((script.pushStatement node).1, (script.pushStatement node).2.unplaced) := by
  simp [pushStatement, unplaced, StatementSlot.unplaced]

theorem unplaced_setNext (statement following : StatementRef) :
    script.unplaced.setNext statement following =
      (script.setNext statement following).unplaced := by
  unfold setNext unplaced
  congr 1
  refine Array.ext_getElem? fun index => ?_
  simp only [Array.getElem?_modify, Array.getElem?_map]
  split
  · cases script.statements[index]? <;> rfl
  · rfl

theorem unplaced_link (sequence : List StatementRef) :
    script.unplaced.link sequence = (script.link sequence).unplaced := by
  induction sequence generalizing script with
  | nil => rfl
  | cons statement rest ih =>
      cases rest with
      | nil => rfl
      | cons following rest =>
          rw [link, unplaced_setNext, ih]
          rfl

end Script

namespace Parse

variable {α β : Type} {erase : α → α} {keep : β → β}

/-- Without places the one production answers what the other answers with them. -/
def Unplaces (erase : α → α) (original moved : Parse α) : Prop :=
  ∀ cursor, moved cursor.unplaced =
    match original cursor with
    | .ok (value, after) => .ok (erase value, after.unplaced)
    | .error stop => .error stop.unplaced

theorem Unplaces.bind {original moved : Parse α} {further other : α → Parse β}
    (first : Unplaces erase original moved)
    (later : ∀ value, Unplaces keep (further value) (other (erase value))) :
    Unplaces keep (original >>= further) (moved >>= other) := by
  intro cursor
  have begun := first cursor
  change (moved cursor.unplaced >>= fun answer => other answer.1 answer.2) =
    match original cursor >>= fun answer => further answer.1 answer.2 with
    | .ok (value, after) => .ok (keep value, after.unplaced)
    | .error stop => .error stop.unplaced
  cases answer : original cursor with
  | error stop =>
      rw [answer] at begun
      rw [begun]
      rfl
  | ok answered =>
      obtain ⟨value, after⟩ := answered
      rw [answer] at begun
      rw [begun]
      exact later value after

theorem unplaces_pure (value : α) : Unplaces erase (pure value) (pure (erase value)) :=
  fun _ => rfl

theorem unplaces_exhausted : Unplaces erase (exhausted : Parse α) exhausted :=
  fun _ => rfl

theorem unplaces_refuse (cause : ParseCause) (span : Span) :
    Unplaces erase (refuse cause span : Parse α) (refuse cause.unplaced .nowhere) :=
  fun _ => rfl

theorem unplaces_peek : Unplaces Token.unplaced peek peek := by
  rintro ⟨items, script⟩
  rcases items with _ | ⟨_ | _, rest⟩ <;> rfl

theorem unplaces_skip : Unplaces id skip skip := by
  rintro ⟨items, script⟩
  rcases items with _ | ⟨item, _ | ⟨following, rest⟩⟩ <;> rfl

theorem unplaces_next : Unplaces Token.unplaced next next := by
  rintro ⟨items, script⟩
  rcases items with _ | ⟨_ | _, _ | ⟨following, rest⟩⟩ <;> rfl

theorem unplaces_expect (kind : TokenKind) :
    Unplaces Token.unplaced (expect kind) (expect kind) := by
  refine unplaces_next.bind fun token => ?_
  change Unplaces Token.unplaced _ (if token.kind = kind then _ else _)
  split
  · exact unplaces_pure token
  · exact unplaces_refuse _ _

theorem unplaces_accept? (kind : TokenKind) :
    Unplaces (Option.map Token.unplaced) (accept? kind) (accept? kind) := by
  refine unplaces_peek.bind fun token => ?_
  change Unplaces _ _ (if token.kind = kind then _ else _)
  split
  · exact unplaces_skip.bind fun _ => unplaces_pure (some token)
  · exact unplaces_pure none

theorem unplaces_accept (kind : TokenKind) : Unplaces id (accept kind) (accept kind) := by
  unfold accept
  rw [map_eq_pure_bind]
  refine (unplaces_accept? kind).bind fun answer => ?_
  rw [Option.isSome_map]
  exact unplaces_pure answer.isSome

theorem unplaced_dropKinds (kinds : List TokenKind) (items : List LexicalItem) :
    dropKinds kinds (items.map LexicalItem.unplaced) =
      (dropKinds kinds items).map LexicalItem.unplaced := by
  fun_induction dropKinds kinds items with
  | case1 token following rest taken ih =>
      rw [← ih]
      exact if_pos taken
  | case2 token following rest other => exact if_neg other
  | case3 items short =>
      rcases items with _ | ⟨_ | token, _ | ⟨following, rest⟩⟩
      · rfl
      · rfl
      · rfl
      · rfl
      · exact (short token following rest rfl).elim

theorem unplaces_skipKinds (kinds : List TokenKind) :
    Unplaces id (skipKinds kinds) (skipKinds kinds) := by
  intro cursor
  have dropped := unplaced_dropKinds kinds cursor.items
  exact congrArg (fun items => Except.ok ((), { cursor.unplaced with items })) dropped

theorem unplaces_name :
    Unplaces (fun named : String × Span => (named.1, .nowhere)) name name :=
  (unplaces_expect .identifier).bind fun token => unplaces_pure (token.lexeme, token.span)

theorem unplaces_pushExpression (node : Expression) :
    Unplaces id (pushExpression node) (pushExpression node.unplaced) := by
  intro cursor
  have pushed := cursor.script.unplaced_pushExpression node
  exact congrArg (fun answer : ExpressionRef × Script =>
    Except.ok (answer.1, { cursor.unplaced with script := answer.2 })) pushed

theorem unplaces_pushStatement (node : Statement) :
    Unplaces id (pushStatement node) (pushStatement node.unplaced) := by
  intro cursor
  have pushed := cursor.script.unplaced_pushStatement node
  exact congrArg (fun answer : StatementRef × Script =>
    Except.ok (answer.1, { cursor.unplaced with script := answer.2 })) pushed

theorem unplaces_link (sequence : List StatementRef) :
    Unplaces id (link sequence) (link sequence) := by
  intro cursor
  have linked := cursor.script.unplaced_link sequence
  exact congrArg (fun script => Except.ok (sequence.head?, { cursor.unplaced with script })) linked

/-!
## Expressions
-/

/-- What a production ends with: a node is pushed and becomes the expression. -/
theorem unplaces_given {node moved : Expression} (same : moved = node.unplaced) (span : Span)
    {place : Span} (placeless : place = .nowhere) (target : Option AssignTarget) :
    Unplaces ParsedExpression.unplaced
      (do
        let reference ← pushExpression node
        return ⟨reference, span, target⟩)
      (do
        let reference ← pushExpression moved
        return ⟨reference, place, target⟩) := by
  subst same placeless
  exact (unplaces_pushExpression node).bind fun reference =>
    unplaces_pure (⟨reference, span, target⟩ : ParsedExpression)

/-- The productions for expressions do the same without places. -/
structure UnplacesExpressions (bound : Nat) : Prop where
  operand : Unplaces ParsedExpression.unplaced (operand bound) (operand bound)
  unary : ∀ operator start, Unplaces ParsedExpression.unplaced (unary bound operator start)
    (unary bound operator .nowhere)
  listUntil : ∀ closing,
    Unplaces (fun list : List ExpressionRef × Token => (list.1, list.2.unplaced))
      (listUntil bound closing) (listUntil bound closing)
  suffixOf : ∀ left, Unplaces ParsedExpression.unplaced (suffixOf bound left)
    (suffixOf bound left.unplaced)
  expressionFrom : ∀ power, Unplaces ParsedExpression.unplaced (expressionFrom bound power)
    (expressionFrom bound power)
  continued : ∀ power left, Unplaces ParsedExpression.unplaced (continued bound power left)
    (continued bound power left.unplaced)

variable {bound : Nat}

private theorem unplaces_operand (ih : UnplacesExpressions bound) :
    Unplaces ParsedExpression.unplaced (Parse.operand (bound + 1)) (Parse.operand (bound + 1)) := by
  simp only [Parse.operand]
  refine unplaces_next.bind fun token => ?_
  have kindIs : token.unplaced.kind = token.kind := rfl
  rw [kindIs]
  generalize token.kind = kind
  cases kind
  case endOfSource => exact unplaces_refuse _ _
  case number | text | trueWord | falseWord | noneWord | identifier =>
    exact unplaces_given rfl _ rfl _
  case minus | notWord => exact ih.unary _ _
  case leftParenthesis =>
    refine (ih.expressionFrom 0).bind fun inner => (unplaces_expect _).bind fun close => ?_
    have merged : token.unplaced.span.merge close.unplaced.span = .nowhere := Span.merge_nowhere
    rw [merged]
    exact unplaces_pure (⟨inner.node, token.span.merge close.span, none⟩ : ParsedExpression)
  case leftBracket =>
    refine (ih.listUntil _).bind fun list => unplaces_given ?_ _ Span.merge_nowhere _
    exact congrArg (Expression.array list.1) Span.merge_nowhere
  all_goals exact unplaces_refuse _ _

private theorem unplaces_listUntil (ih : UnplacesExpressions bound) (closing : TokenKind) :
    Unplaces (fun list : List ExpressionRef × Token => (list.1, list.2.unplaced))
      (Parse.listUntil (bound + 1) closing) (Parse.listUntil (bound + 1) closing) := by
  simp only [Parse.listUntil]
  refine (unplaces_accept? closing).bind fun found => ?_
  cases found with
  | some close => exact unplaces_pure (([], close) : List ExpressionRef × Token)
  | none =>
      refine (ih.expressionFrom 0).bind fun item => (unplaces_accept .comma).bind fun more => ?_
      cases more with
      | true =>
          exact (ih.listUntil closing).bind fun rest =>
            unplaces_pure ((item.node :: rest.1, rest.2) : List ExpressionRef × Token)
      | false =>
          exact (unplaces_expect closing).bind fun close =>
            unplaces_pure (([item.node], close) : List ExpressionRef × Token)

private theorem unplaces_suffixOf (ih : UnplacesExpressions bound) (left : ParsedExpression) :
    Unplaces ParsedExpression.unplaced (Parse.suffixOf (bound + 1) left)
      (Parse.suffixOf (bound + 1) left.unplaced) := by
  simp only [Parse.suffixOf]
  refine unplaces_next.bind fun token => ?_
  have kindIs : token.unplaced.kind = token.kind := rfl
  rw [kindIs]
  generalize token.kind = kind
  cases kind
  case leftParenthesis =>
    refine (ih.listUntil _).bind fun list => unplaces_given ?_ _ Span.merge_nowhere _
    exact congrArg (Expression.call left.node list.1) Span.merge_nowhere
  case leftBracket =>
    refine (ih.expressionFrom 0).bind fun index => (unplaces_expect _).bind fun close =>
      unplaces_given ?_ _ Span.merge_nowhere _
    exact congrArg (Expression.element left.node index.node) Span.merge_nowhere
  all_goals
    refine unplaces_name.bind fun named =>
      (unplaces_pushExpression (.name named.1 named.2)).bind fun member =>
        unplaces_given ?_ _ Span.merge_nowhere _
    exact congrArg (Expression.member left.node member) Span.merge_nowhere

private theorem unplaces_continued (ih : UnplacesExpressions bound) (power : Nat)
    (left : ParsedExpression) :
    Unplaces ParsedExpression.unplaced (Parse.continued (bound + 1) power left)
      (Parse.continued (bound + 1) power left.unplaced) := by
  simp only [Parse.continued]
  refine unplaces_peek.bind fun token => ?_
  have kindIs : token.unplaced.kind = token.kind := rfl
  rw [kindIs]
  generalize token.kind = kind
  have suffix : Unplaces ParsedExpression.unplaced
      (if suffixPower < power then return left
        else do
          let extended ← Parse.suffixOf bound left
          Parse.continued bound power extended)
      (if suffixPower < power then return left.unplaced
        else do
          let extended ← Parse.suffixOf bound left.unplaced
          Parse.continued bound power extended) := by
    split
    · exact unplaces_pure left
    · exact (ih.suffixOf left).bind fun extended => ih.continued power extended
  split
  · exact suffix
  · exact suffix
  · exact suffix
  · cases MiddleOperator.ofKind? kind with
    | none => exact unplaces_pure left
    | some operator =>
        dsimp only
        split
        · exact unplaces_pure left
        · refine unplaces_skip.bind fun _ => (ih.expressionFrom _).bind fun right => ?_
          have merged : left.unplaced.span.merge right.unplaced.span = .nowhere :=
            Span.merge_nowhere
          have pushed := unplaces_pushExpression
            (operator.node left.node right.node (left.span.merge right.span))
          rw [operator.unplaced_node] at pushed
          rw [merged]
          exact pushed.bind fun node =>
            ih.continued power ⟨node, left.span.merge right.span, none⟩

/-- Every production for expressions does the same without places. -/
theorem unplacesExpressions (bound : Nat) : UnplacesExpressions bound := by
  induction bound with
  | zero => constructor <;> intros <;> exact unplaces_exhausted
  | succ bound ih =>
      exact {
        operand := unplaces_operand ih
        unary := fun operator start => by
          refine (ih.expressionFrom _).bind fun inner => unplaces_given ?_ _ Span.merge_nowhere _
          exact congrArg (Expression.unary operator inner.node) Span.merge_nowhere
        listUntil := unplaces_listUntil ih
        suffixOf := unplaces_suffixOf ih
        expressionFrom := fun power => ih.operand.bind fun left => ih.continued power left
        continued := unplaces_continued ih }

theorem unplaces_expression (bound : Nat) :
    Unplaces ParsedExpression.unplaced (expression bound) (expression bound) :=
  (unplacesExpressions bound).expressionFrom 0

/-!
## Statements
-/

theorem unplaces_atTerminator : Unplaces id atTerminator atTerminator :=
  unplaces_peek.bind fun token => unplaces_pure
    (token.kind = .newline || token.kind = .semicolon || token.kind = .endOfSource)

theorem unplaces_terminator : Unplaces id terminator terminator := by
  refine unplaces_peek.bind fun token => ?_
  have kindIs : token.unplaced.kind = token.kind := rfl
  rw [kindIs]
  generalize token.kind = kind
  cases kind
  case newline | semicolon => exact unplaces_skip
  case endOfSource => exact unplaces_pure ()
  all_goals exact unplaces_refuse _ _

private theorem unplaces_printedRest (bound : Nat) :
    Unplaces id (printedRest bound) (printedRest bound) := by
  induction bound with
  | zero => exact unplaces_exhausted
  | succ bound ih =>
      refine (unplaces_accept .comma).bind fun more => ?_
      cases more with
      | true =>
          exact (unplaces_expression bound).bind fun value => ih.bind fun rest =>
            unplaces_pure (value.node :: rest)
      | false => exact unplaces_pure []

private theorem unplaces_assignmentOrExpression (bound : Nat) :
    Unplaces id (assignmentOrExpression bound) (assignmentOrExpression bound) := by
  refine (unplaces_expression bound).bind fun left => unplaces_peek.bind fun token => ?_
  have kindIs : token.unplaced.kind = token.kind := rfl
  rw [kindIs]
  cases assignOperator? token.kind with
  | none => exact unplaces_pushStatement (.expression left.node)
  | some operator =>
      refine unplaces_skip.bind fun _ => ?_
      have targetIs : left.unplaced.target = left.target := rfl
      rw [targetIs]
      cases left.target with
      | none => exact unplaces_refuse _ _
      | some target =>
          refine (unplaces_expression bound).bind fun value => ?_
          have merged : left.unplaced.span.merge value.unplaced.span = .nowhere :=
            Span.merge_nowhere
          rw [merged]
          exact unplaces_pushStatement
            (.assign target operator value.node (left.span.merge value.span))

private theorem unplaces_simpleStatement (bound : Nat) :
    Unplaces id (simpleStatement bound) (simpleStatement bound) := by
  refine unplaces_peek.bind fun token => ?_
  have kindIs : token.unplaced.kind = token.kind := rfl
  rw [kindIs]
  generalize token.kind = kind
  cases kind
  case printWord =>
    refine unplaces_skip.bind fun _ => unplaces_atTerminator.bind fun ended => ?_
    cases ended with
    | true => exact unplaces_pushStatement (.print [])
    | false =>
        exact (unplaces_expression bound).bind fun value =>
          (unplaces_printedRest bound).bind fun rest =>
            unplaces_pushStatement (.print (value.node :: rest))
  case passWord => exact unplaces_skip.bind fun _ => unplaces_pushStatement .pass
  case continueWord =>
    exact unplaces_skip.bind fun _ => unplaces_pushStatement (.continueLoop token.span)
  case breakWord =>
    refine unplaces_skip.bind fun _ => (unplaces_accept? .number).bind fun found => ?_
    cases found with
    | none => exact unplaces_pushStatement (.breakLoops 1 token.span)
    | some number =>
        have countIs : number.unplaced.count? = number.count? := rfl
        dsimp only [Option.map]
        rw [countIs]
        cases number.count? with
        | none => exact unplaces_refuse _ _
        | some count =>
            have merged : token.unplaced.span.merge number.unplaced.span = .nowhere :=
              Span.merge_nowhere
            rw [merged]
            exact unplaces_pushStatement (.breakLoops count (token.span.merge number.span))
  case returnWord =>
    refine unplaces_skip.bind fun _ => unplaces_atTerminator.bind fun ended => ?_
    cases ended with
    | true => exact unplaces_pushStatement (.returnValue none)
    | false =>
        exact (unplaces_expression bound).bind fun value =>
          unplaces_pushStatement (.returnValue (some value.node))
  case delWord =>
    refine unplaces_skip.bind fun _ => unplaces_name.bind fun deleted => ?_
    obtain ⟨deleted, span⟩ := deleted
    have merged : token.unplaced.span.merge .nowhere = .nowhere := Span.merge_nowhere
    dsimp only
    rw [merged]
    exact unplaces_pushStatement (.delete deleted (token.span.merge span))
  all_goals exact unplaces_assignmentOrExpression bound

private theorem unplaces_parameters (bound : Nat) :
    Unplaces id (parameters bound) (parameters bound) := by
  induction bound with
  | zero => exact unplaces_exhausted
  | succ bound ih =>
      refine (unplaces_accept .rightParenthesis).bind fun closed => ?_
      cases closed with
      | true => exact unplaces_pure []
      | false =>
          refine unplaces_name.bind fun named => (unplaces_accept .comma).bind fun more => ?_
          cases more with
          | true => exact ih.bind fun rest => unplaces_pure (named.1 :: rest)
          | false =>
              exact (unplaces_expect .rightParenthesis).bind fun _ => unplaces_pure [named.1]

theorem unplaces_closeCompound (severalLines : Bool) :
    Unplaces id (closeCompound severalLines) (closeCompound severalLines) := by
  cases severalLines with
  | true => exact (unplaces_expect .endWord).bind fun _ => unplaces_terminator
  | false => exact unplaces_pure ()

/-- The productions for statements do the same without places. -/
structure UnplacesStatements (bound : Nat) : Prop where
  sequence : ∀ ends, Unplaces id (sequence bound ends) (sequence bound ends)
  statement : Unplaces id (statement bound) (statement bound)
  block : Unplaces id (block bound) (block bound)
  furtherBranches : ∀ severalLines,
    Unplaces id (furtherBranches bound severalLines) (furtherBranches bound severalLines)
  recordBody : Unplaces id (recordBody bound) (recordBody bound)

private theorem unplaces_sequence (ih : UnplacesStatements bound) (ends : List TokenKind) :
    Unplaces id (Parse.sequence (bound + 1) ends) (Parse.sequence (bound + 1) ends) := by
  simp only [Parse.sequence]
  refine (unplaces_skipKinds _).bind fun _ => unplaces_peek.bind fun token => ?_
  have kindIs : token.unplaced.kind = token.kind := rfl
  rw [kindIs]
  split
  · exact unplaces_pure []
  · split
    · exact unplaces_refuse _ _
    · exact ih.statement.bind fun first => (ih.sequence ends).bind fun rest =>
        unplaces_pure (first :: rest)

private theorem unplaces_statement (ih : UnplacesStatements bound) :
    Unplaces id (Parse.statement (bound + 1)) (Parse.statement (bound + 1)) := by
  simp only [Parse.statement]
  refine unplaces_peek.bind fun token => ?_
  have kindIs : token.unplaced.kind = token.kind := rfl
  rw [kindIs]
  generalize token.kind = kind
  cases kind
  case ifWord =>
    exact unplaces_skip.bind fun _ => (unplaces_expression bound).bind fun condition =>
      ih.block.bind fun body => (ih.furtherBranches body.2).bind fun branches =>
        unplaces_pushStatement (.branch ((condition.node, body.1) :: branches.1) branches.2)
  case whileWord =>
    exact unplaces_skip.bind fun _ => (unplaces_expression bound).bind fun condition =>
      ih.block.bind fun body => (unplaces_closeCompound body.2).bind fun _ =>
        unplaces_pushStatement (.whileLoop condition.node body.1)
  case forWord =>
    refine unplaces_skip.bind fun _ => unplaces_name.bind fun item =>
      (unplaces_expect .inWord).bind fun _ => (unplaces_expression bound).bind fun iterable =>
        ih.block.bind fun body => (unplaces_closeCompound body.2).bind fun _ => ?_
    have merged : token.unplaced.span.merge iterable.unplaced.span = .nowhere :=
      Span.merge_nowhere
    rw [merged]
    exact unplaces_pushStatement
      (.forLoop item.1 iterable.node body.1 (token.span.merge iterable.span))
  case defWord =>
    exact unplaces_skip.bind fun _ => unplaces_name.bind fun function =>
      (unplaces_expect .leftParenthesis).bind fun _ => (unplaces_parameters bound).bind fun names =>
        ih.block.bind fun body => (unplaces_closeCompound body.2).bind fun _ =>
          unplaces_pushStatement (.define function.1 names body.1)
  case recordWord =>
    refine unplaces_skip.bind fun _ => unplaces_name.bind fun named =>
      ih.recordBody.bind fun body => ?_
    have merged : token.unplaced.span.merge .nowhere = .nowhere := Span.merge_nowhere
    rw [merged]
    exact unplaces_pushStatement (.record named.1 body (token.span.merge named.2))
  all_goals
    exact (unplaces_simpleStatement bound).bind fun simple =>
      unplaces_terminator.bind fun _ => unplaces_pure simple

private theorem unplaces_block (ih : UnplacesStatements bound) :
    Unplaces id (Parse.block (bound + 1)) (Parse.block (bound + 1)) := by
  simp only [Parse.block]
  refine (unplaces_accept .colon).bind fun colon => ?_
  cases colon with
  | true =>
      exact (unplaces_simpleStatement bound).bind fun simple =>
        unplaces_terminator.bind fun _ => unplaces_pure (some simple, false)
  | false =>
      refine unplaces_next.bind fun token => ?_
      have kindIs : token.unplaced.kind = token.kind := rfl
      rw [kindIs]
      generalize token.kind = kind
      cases kind
      case newline =>
        exact (ih.sequence blockEnds).bind fun statements => (unplaces_link statements).bind
          fun first => unplaces_pure (first, true)
      all_goals exact unplaces_refuse _ _

private theorem unplaces_furtherBranches (ih : UnplacesStatements bound) (severalLines : Bool) :
    Unplaces id (Parse.furtherBranches (bound + 1) severalLines)
      (Parse.furtherBranches (bound + 1) severalLines) := by
  simp only [Parse.furtherBranches]
  refine (unplaces_skipKinds _).bind fun _ => (unplaces_accept .elsifWord).bind fun tested => ?_
  cases tested with
  | true =>
      exact (unplaces_expression bound).bind fun condition => ih.block.bind fun body =>
        (ih.furtherBranches body.2).bind fun branches =>
          unplaces_pure ((condition.node, body.1) :: branches.1, branches.2)
  | false =>
      refine (unplaces_accept .elseWord).bind fun otherwise => ?_
      cases otherwise with
      | true =>
          exact ih.block.bind fun body => (unplaces_closeCompound body.2).bind fun _ =>
            unplaces_pure ([], some body.1)
      | false =>
          exact (unplaces_closeCompound severalLines).bind fun _ => unplaces_pure ([], none)

private theorem unplaces_recordBody (ih : UnplacesStatements bound) :
    Unplaces id (Parse.recordBody (bound + 1)) (Parse.recordBody (bound + 1)) := by
  simp only [Parse.recordBody]
  refine unplaces_peek.bind fun token => ?_
  have kindIs : token.unplaced.kind = token.kind := rfl
  rw [kindIs]
  generalize token.kind = kind
  cases kind
  case semicolon | endOfSource => exact unplaces_terminator.bind fun _ => unplaces_pure none
  all_goals
    exact ih.block.bind fun body => (unplaces_closeCompound body.2).bind fun _ =>
      unplaces_pure body.1

/-- Every production for statements does the same without places. -/
theorem unplacesStatements (bound : Nat) : UnplacesStatements bound := by
  induction bound with
  | zero => constructor <;> intros <;> exact unplaces_exhausted
  | succ bound ih =>
      exact ⟨unplaces_sequence ih, unplaces_statement ih, unplaces_block ih,
        unplaces_furtherBranches ih, unplaces_recordBody ih⟩

theorem unplaces_program (bound : Nat) :
    Unplaces Script.unplaced (program bound) (program bound) := by
  refine ((unplacesStatements bound).sequence _).bind fun statements =>
    (unplaces_expect .endOfSource).bind fun _ => (unplaces_link statements).bind fun first => ?_
  intro cursor
  exact congrArg (fun script => Except.ok
    ({ cursor.script.unplaced with first }, (⟨cursor.unplaced.items, script⟩ : Cursor)))
    Script.unplaced_empty.symm

end Parse

/-!
## Whole sources
-/

/-- The answer to a source without the places in it. -/
def Script.answerUnplaced : Except ParseError Script → Except ParseError Script
  | .ok script => .ok script.unplaced
  | .error failure => .error failure.unplaced

theorem Cursor.finish_unplaced (cursor : Cursor) :
    cursor.unplaced.finish = Script.answerUnplaced cursor.finish := by
  have deep : cursor.unplaced.depthBound = cursor.depthBound := by
    simp [depthBound, unplaced]
  have parsed := Parse.unplaces_program cursor.depthBound cursor
  unfold finish Cursor.parse
  rw [deep, parsed]
  cases answer : Parse.program cursor.depthBound cursor with
  | ok answered => rfl
  | error stop => cases stop <;> rfl

/-- Sources with the same items, but for where these stand, are answered alike. -/
theorem Script.ofSource_unplaced {first second : String}
    (same : (LexicalItem.scan first).map LexicalItem.unplaced =
      (LexicalItem.scan second).map LexicalItem.unplaced) :
    answerUnplaced (ofSource first) = answerUnplaced (ofSource second) := by
  have cursors : (Cursor.ofSource first).unplaced = (Cursor.ofSource second).unplaced :=
    congrArg (fun items => (⟨items, Script.empty.unplaced⟩ : Cursor)) same
  rw [ofSource, ofSource, ← Cursor.finish_unplaced, ← Cursor.finish_unplaced, cursors]

end ScriptEngine
