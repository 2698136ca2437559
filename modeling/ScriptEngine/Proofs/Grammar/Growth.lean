import ScriptEngine.Grammar.Statement
import ScriptEngine.Proofs.Script.Growth

/-!
# What productions add to the script

Reading tokens adds nothing. A production for expressions adds expressions whose
children are present, so every node keeps spelling a tree. A production for
statements fills the slots that it adds: the statements that it returns are laid
out there, each behind its bodies. The main statement is that the script of an
accepted source is laid out from its first slot to its last
(`Cursor.finish_laid`).
-/

set_option autoImplicit false

namespace ScriptEngine

namespace Parse

theorem bind_ok {α β : Type} {first : Parse α} {following : α → Parse β} {cursor after : Cursor}
    {result : β} (parsed : (first >>= following) cursor = .ok (result, after)) :
    ∃ value middle, first cursor = .ok (value, middle) ∧
      following value middle = .ok (result, after) := by
  simp only [bind, StateT.bind, Except.bind] at parsed
  split at parsed
  · cases parsed
  · next pair firstOk => exact ⟨pair.1, pair.2, firstOk, parsed⟩

theorem refuse_ok {α : Type} {cause : ParseCause} {span : Span} {cursor after : Cursor}
    {result : α} (parsed : (refuse cause span : Parse α) cursor = .ok (result, after)) : False := by
  cases parsed

/-!
## Reading tokens
-/

/-- The production adds nothing to the script. -/
def KeepsScript {α : Type} (production : Parse α) : Prop :=
  ∀ (cursor after : Cursor) (result : α),
    production cursor = .ok (result, after) → after.script = cursor.script

theorem keepsScript_pure {α : Type} (value : α) : KeepsScript (pure value) := by
  intro cursor after result parsed
  cases parsed
  rfl

theorem keepsScript_refuse {α : Type} (cause : ParseCause) (span : Span) :
    KeepsScript (refuse cause span : Parse α) := by
  intro cursor after result parsed
  cases parsed

theorem KeepsScript.bind {α β : Type} {first : Parse α} {following : α → Parse β}
    (firstKeeps : KeepsScript first) (followingKeeps : ∀ value, KeepsScript (following value)) :
    KeepsScript (first >>= following) := by
  intro cursor after result parsed
  obtain ⟨value, middle, firstOk, followingOk⟩ := bind_ok parsed
  rw [followingKeeps value _ _ _ followingOk, firstKeeps _ _ _ firstOk]

theorem keepsScript_peek : KeepsScript peek := by
  intro cursor after token parsed
  unfold peek at parsed
  split at parsed <;> cases parsed <;> rfl

theorem keepsScript_skip : KeepsScript skip := by
  intro cursor after _ parsed
  unfold skip at parsed
  split at parsed <;> cases parsed <;> rfl

theorem keepsScript_next : KeepsScript next := by
  intro cursor after token parsed
  unfold next at parsed
  split at parsed
  · cases parsed
  · exact (keepsScript_peek.bind fun _ => keepsScript_skip.bind fun _ => keepsScript_pure _)
      cursor after token parsed

theorem keepsScript_expect (kind : TokenKind) : KeepsScript (expect kind) := by
  refine keepsScript_next.bind fun token => ?_
  split
  · exact keepsScript_pure _
  · exact keepsScript_refuse _ _

theorem keepsScript_accept? (kind : TokenKind) : KeepsScript (accept? kind) := by
  refine keepsScript_peek.bind fun token => ?_
  split
  · exact keepsScript_skip.bind fun _ => keepsScript_pure _
  · exact keepsScript_pure _

theorem keepsScript_accept (kind : TokenKind) : KeepsScript (accept kind) := by
  intro cursor after result parsed
  unfold accept at parsed
  rw [map_eq_pure_bind] at parsed
  exact (keepsScript_accept? kind).bind (fun _ => keepsScript_pure _) cursor after result parsed

/-- What is skipped stands in front. -/
theorem dropKinds_suffix (kinds : List TokenKind) (items : List LexicalItem) :
    dropKinds kinds items <:+ items := by
  fun_induction dropKinds kinds items with
  | case1 token following rest _ ih => exact ih.trans (List.suffix_cons _ _)
  | case2 | case3 => exact List.suffix_refl _

theorem keepsScript_skipKinds (kinds : List TokenKind) : KeepsScript (skipKinds kinds) := by
  intro cursor after _ parsed
  cases parsed
  rfl

theorem keepsScript_name : KeepsScript name :=
  (keepsScript_expect _).bind fun _ => keepsScript_pure _

theorem keepsScript_atTerminator : KeepsScript atTerminator :=
  keepsScript_peek.bind fun _ => keepsScript_pure _

theorem keepsScript_terminator : KeepsScript terminator := by
  refine keepsScript_peek.bind fun token => ?_
  split
  · exact keepsScript_skip
  · exact keepsScript_skip
  · exact keepsScript_pure _
  · exact keepsScript_refuse _ _

theorem keepsScript_closeCompound (severalLines : Bool) :
    KeepsScript (closeCompound severalLines) := by
  unfold closeCompound
  split
  · exact (keepsScript_expect _).bind fun _ => keepsScript_terminator
  · exact keepsScript_pure _

theorem keepsScript_parameters (bound : Nat) : KeepsScript (parameters bound) := by
  induction bound with
  | zero => intro cursor after result parsed; cases parsed
  | succ bound ih =>
      refine (keepsScript_accept _).bind fun closed => ?_
      split
      · exact keepsScript_pure _
      · refine keepsScript_name.bind fun parameter => (keepsScript_accept _).bind fun more => ?_
        split
        · exact ih.bind fun _ => keepsScript_pure _
        · exact (keepsScript_expect _).bind fun _ => keepsScript_pure _

end Parse

/-!
## Expressions
-/

/-- The second script has all of the first and perhaps more expressions, and
every node still spells a tree if every node did before. -/
structure Script.GrowsTo (before after : Script) : Prop where
  statements : after.statements = before.statements
  first : after.first = before.first
  expressions : before.KeepsExpressions after
  planted : before.Planted → after.Planted

namespace Script.GrowsTo

theorem of_eq {before after : Script} (same : after = before) : before.GrowsTo after := by
  subst same
  exact ⟨rfl, rfl, fun _ _ => rfl, id⟩

theorem trans {first second third : Script} (early : first.GrowsTo second)
    (late : second.GrowsTo third) : first.GrowsTo third where
  statements := late.statements.trans early.statements
  first := late.first.trans early.first
  expressions index present :=
    (late.expressions index (Nat.lt_of_lt_of_le present early.expressions.le)).trans
      (early.expressions index present)
  planted planted := late.planted (early.planted planted)

theorem le {before after : Script} (grown : before.GrowsTo after) :
    before.expressions.size ≤ after.expressions.size :=
  grown.expressions.le

theorem toExtends {before after : Script} (grown : before.GrowsTo after) :
    before.Extends after :=
  ⟨grown.expressions, fun index _ => by rw [grown.statements]⟩

end Script.GrowsTo

/-- The expressions that an assignment evaluates for its target are present. -/
def AssignTarget.Rooted (script : Script) : AssignTarget → Prop
  | .name _ => True
  | .member object _ => object.index < script.expressions.size
  | .element object index =>
      object.index < script.expressions.size ∧ index.index < script.expressions.size

/-- The node of a parsed expression and those of its target are present. -/
structure ParsedExpression.Rooted (script : Script) (parsed : ParsedExpression) : Prop where
  node : parsed.node.index < script.expressions.size
  target : ∀ target, parsed.target = some target → target.Rooted script

theorem AssignTarget.Rooted.grow {before after : Script} {target : AssignTarget}
    (rooted : target.Rooted before) (le : before.expressions.size ≤ after.expressions.size) :
    target.Rooted after := by
  cases target with
  | name => trivial
  | member => exact Nat.lt_of_lt_of_le rooted le
  | element => exact ⟨Nat.lt_of_lt_of_le rooted.1 le, Nat.lt_of_lt_of_le rooted.2 le⟩

theorem ParsedExpression.Rooted.grow {before after : Script} {parsed : ParsedExpression}
    (rooted : parsed.Rooted before) (grown : before.GrowsTo after) : parsed.Rooted after where
  node := Nat.lt_of_lt_of_le rooted.node grown.le
  target target found := (rooted.target target found).grow grown.le

namespace Parse

/-- Adding a node whose children are present keeps every node with a tree. -/
theorem pushExpression_ok {node : Expression} {cursor after : Cursor} {reference : ExpressionRef}
    (parsed : pushExpression node cursor = .ok (reference, after))
    (rooted : node.Rooted cursor.script) :
    cursor.script.GrowsTo after.script ∧ reference.index < after.script.expressions.size ∧
      after.script.expression? reference = some node := by
  cases parsed
  refine ⟨⟨rfl, rfl, (cursor.script.extends_pushExpression node).expressions, ?_⟩, ?_, ?_⟩
  · exact fun planted => planted.pushExpression rooted
  · simp
  · exact cursor.script.expression?_pushExpression node

/-- What a production for expressions does to the script, and what it gives. -/
def Roots {α : Type} (production : Parse α) (before : Script → Prop)
    (rooted : Script → α → Prop) : Prop :=
  ∀ (cursor after : Cursor) (result : α), production cursor = .ok (result, after) →
    before cursor.script → cursor.script.GrowsTo after.script ∧ rooted after.script result

/-- The productions for expressions give nodes that are present. -/
structure RootsExpressions (bound : Nat) : Prop where
  operand : Roots (operand bound) (fun _ => True) ParsedExpression.Rooted
  unary : ∀ operator start,
    Roots (unary bound operator start) (fun _ => True) ParsedExpression.Rooted
  listUntil : ∀ closing, Roots (listUntil bound closing) (fun _ => True)
    fun script result => ∀ node ∈ result.1, node.index < script.expressions.size
  suffixOf : ∀ left : ParsedExpression,
    Roots (suffixOf bound left) left.Rooted ParsedExpression.Rooted
  expressionFrom : ∀ power,
    Roots (expressionFrom bound power) (fun _ => True) ParsedExpression.Rooted
  continued : ∀ power (left : ParsedExpression),
    Roots (continued bound power left) left.Rooted ParsedExpression.Rooted

theorem roots_literal (value : Value) (span : Span) :
    Roots (literal value span) (fun _ => True) ParsedExpression.Rooted := by
  intro cursor after result parsed _
  obtain ⟨node, middle, pushed, finished⟩ := bind_ok parsed
  obtain ⟨grown, present, _⟩ := pushExpression_ok pushed trivial
  cases finished
  exact ⟨grown, present, by simp⟩

theorem MiddleOperator.rooted_node {script : Script} (operator : MiddleOperator)
    {left right : ExpressionRef} (span : Span) (leftPresent : left.index < script.expressions.size)
    (rightPresent : right.index < script.expressions.size) :
    (operator.node left right span).Rooted script := by
  cases operator <;> exact ⟨leftPresent, rightPresent⟩

private theorem roots_operand {bound : Nat} (ih : RootsExpressions bound) :
    Roots (operand (bound + 1)) (fun _ => True) ParsedExpression.Rooted := by
  intro cursor after result parsed _
  simp only [operand] at parsed
  obtain ⟨token, first, tokenRead, parsed⟩ := bind_ok parsed
  have read := Script.GrowsTo.of_eq (keepsScript_next _ _ _ tokenRead)
  generalize token.kind = kind at parsed
  split at parsed
  · exact (refuse_ok parsed).elim
  iterate 5
    obtain ⟨grown, rooted⟩ := roots_literal _ _ _ _ _ parsed trivial
    exact ⟨read.trans grown, rooted⟩
  · obtain ⟨node, middle, pushed, finished⟩ := bind_ok parsed
    obtain ⟨grown, present, _⟩ := pushExpression_ok pushed trivial
    cases finished
    refine ⟨read.trans grown, present, ?_⟩
    intro target found
    cases found
    trivial
  · obtain ⟨grown, rooted⟩ := ih.unary _ _ _ _ _ parsed trivial
    exact ⟨read.trans grown, rooted⟩
  · obtain ⟨grown, rooted⟩ := ih.unary _ _ _ _ _ parsed trivial
    exact ⟨read.trans grown, rooted⟩
  · obtain ⟨inner, middle, innerParsed, parsed⟩ := bind_ok parsed
    obtain ⟨close, last, closeRead, finished⟩ := bind_ok parsed
    obtain ⟨grown, rooted⟩ := ih.expressionFrom _ _ _ _ innerParsed trivial
    have closed := Script.GrowsTo.of_eq (keepsScript_expect _ _ _ _ closeRead)
    cases finished
    exact ⟨(read.trans grown).trans closed, (rooted.grow closed).node, by simp⟩
  · obtain ⟨⟨elements, close⟩, middle, listParsed, parsed⟩ := bind_ok parsed
    obtain ⟨node, last, pushed, finished⟩ := bind_ok parsed
    obtain ⟨grown, present⟩ := ih.listUntil _ _ _ _ listParsed trivial
    obtain ⟨added, nodePresent, _⟩ := pushExpression_ok pushed present
    cases finished
    exact ⟨(read.trans grown).trans added, nodePresent, by simp⟩
  · exact (refuse_ok parsed).elim

private theorem roots_unary {bound : Nat} (ih : RootsExpressions bound)
    (operator : UnaryOperator) (start : Span) :
    Roots (unary (bound + 1) operator start) (fun _ => True) ParsedExpression.Rooted := by
  intro cursor after result parsed _
  simp only [unary] at parsed
  obtain ⟨inner, middle, innerParsed, parsed⟩ := bind_ok parsed
  obtain ⟨node, last, pushed, finished⟩ := bind_ok parsed
  obtain ⟨grown, rooted⟩ := ih.expressionFrom _ _ _ _ innerParsed trivial
  obtain ⟨added, present, _⟩ := pushExpression_ok pushed
    (by simpa only [Expression.Rooted] using rooted.node)
  cases finished
  exact ⟨grown.trans added, present, by simp⟩

private theorem roots_listUntil {bound : Nat} (ih : RootsExpressions bound) (closing : TokenKind) :
    Roots (listUntil (bound + 1) closing) (fun _ => True)
      fun script result => ∀ node ∈ result.1, node.index < script.expressions.size := by
  intro cursor after result parsed _
  simp only [listUntil] at parsed
  obtain ⟨closed, first, closedRead, parsed⟩ := bind_ok parsed
  have read := Script.GrowsTo.of_eq (keepsScript_accept? _ _ _ _ closedRead)
  split at parsed
  · cases parsed
    exact ⟨read, by simp⟩
  · obtain ⟨item, second, itemParsed, parsed⟩ := bind_ok parsed
    obtain ⟨grown, rooted⟩ := ih.expressionFrom _ _ _ _ itemParsed trivial
    obtain ⟨more, third, moreRead, parsed⟩ := bind_ok parsed
    have reread := Script.GrowsTo.of_eq (keepsScript_accept _ _ _ _ moreRead)
    split at parsed
    · obtain ⟨⟨items, close⟩, fourth, restParsed, finished⟩ := bind_ok parsed
      obtain ⟨added, present⟩ := ih.listUntil _ _ _ _ restParsed trivial
      cases finished
      refine ⟨((read.trans grown).trans reread).trans added, ?_⟩
      intro node member
      rcases List.mem_cons.mp member with rfl | member
      · exact ((rooted.grow reread).grow added).node
      · exact present node member
    · obtain ⟨close, fourth, closeRead, finished⟩ := bind_ok parsed
      have last := Script.GrowsTo.of_eq (keepsScript_expect _ _ _ _ closeRead)
      cases finished
      refine ⟨((read.trans grown).trans reread).trans last, ?_⟩
      intro node member
      rcases List.mem_cons.mp member with rfl | member
      · exact ((rooted.grow reread).grow last).node
      · cases member

private theorem roots_suffixOf {bound : Nat} (ih : RootsExpressions bound)
    (left : ParsedExpression) :
    Roots (suffixOf (bound + 1) left) left.Rooted ParsedExpression.Rooted := by
  intro cursor after result parsed leftRooted
  simp only [suffixOf] at parsed
  obtain ⟨token, first, tokenRead, parsed⟩ := bind_ok parsed
  have read := Script.GrowsTo.of_eq (keepsScript_next _ _ _ tokenRead)
  generalize token.kind = kind at parsed
  split at parsed
  · obtain ⟨⟨arguments, close⟩, second, listParsed, parsed⟩ := bind_ok parsed
    obtain ⟨node, third, pushed, finished⟩ := bind_ok parsed
    obtain ⟨grown, present⟩ := ih.listUntil _ _ _ _ listParsed trivial
    obtain ⟨added, nodePresent, _⟩ := pushExpression_ok pushed
      ⟨((leftRooted.grow read).grow grown).node, present⟩
    cases finished
    exact ⟨(read.trans grown).trans added, nodePresent, by simp⟩
  · obtain ⟨index, second, indexParsed, parsed⟩ := bind_ok parsed
    obtain ⟨close, third, closeRead, parsed⟩ := bind_ok parsed
    obtain ⟨node, fourth, pushed, finished⟩ := bind_ok parsed
    obtain ⟨grown, indexRooted⟩ := ih.expressionFrom _ _ _ _ indexParsed trivial
    have closed := Script.GrowsTo.of_eq (keepsScript_expect _ _ _ _ closeRead)
    have objectPresent := (((leftRooted.grow read).grow grown).grow closed).node
    have indexPresent := (indexRooted.grow closed).node
    obtain ⟨added, nodePresent, _⟩ := pushExpression_ok pushed ⟨objectPresent, indexPresent⟩
    cases finished
    refine ⟨((read.trans grown).trans closed).trans added, nodePresent, ?_⟩
    intro target found
    cases found
    exact AssignTarget.Rooted.grow ⟨objectPresent, indexPresent⟩ added.le
  · obtain ⟨⟨memberName, memberSpan⟩, second, nameRead, parsed⟩ := bind_ok parsed
    obtain ⟨member, third, memberPushed, parsed⟩ := bind_ok parsed
    obtain ⟨node, fourth, pushed, finished⟩ := bind_ok parsed
    have named := Script.GrowsTo.of_eq (keepsScript_name _ _ _ nameRead)
    obtain ⟨grown, _, memberFound⟩ := pushExpression_ok memberPushed trivial
    have objectPresent := (((leftRooted.grow read).grow named).grow grown).node
    obtain ⟨added, nodePresent, _⟩ := pushExpression_ok pushed
      ⟨objectPresent, _, _, memberFound⟩
    cases finished
    refine ⟨((read.trans named).trans grown).trans added, nodePresent, ?_⟩
    intro target found
    cases found
    exact Nat.lt_of_lt_of_le objectPresent added.le

private theorem roots_continued {bound : Nat} (ih : RootsExpressions bound) (power : Nat)
    (left : ParsedExpression) :
    Roots (continued (bound + 1) power left) left.Rooted ParsedExpression.Rooted := by
  intro cursor after result parsed leftRooted
  simp only [continued] at parsed
  obtain ⟨token, first, tokenRead, parsed⟩ := bind_ok parsed
  have read := Script.GrowsTo.of_eq (keepsScript_peek _ _ _ tokenRead)
  generalize token.kind = kind at parsed
  split at parsed
  iterate 3
    split at parsed
    · cases parsed
      exact ⟨read, leftRooted.grow read⟩
    · obtain ⟨extended, second, extendedParsed, parsed⟩ := bind_ok parsed
      obtain ⟨grown, extendedRooted⟩ := ih.suffixOf left _ _ _ extendedParsed (leftRooted.grow read)
      obtain ⟨more, rooted⟩ := ih.continued _ _ _ _ _ parsed extendedRooted
      exact ⟨(read.trans grown).trans more, rooted⟩
  · generalize MiddleOperator.ofKind? _ = operator? at parsed
    cases operator? with
    | none =>
        cases parsed
        exact ⟨read, leftRooted.grow read⟩
    | some operator =>
        dsimp only at parsed
        split at parsed
        · cases parsed
          exact ⟨read, leftRooted.grow read⟩
        · obtain ⟨_, second, skipped, parsed⟩ := bind_ok parsed
          obtain ⟨right, third, rightParsed, parsed⟩ := bind_ok parsed
          obtain ⟨node, fourth, pushed, parsed⟩ := bind_ok parsed
          have reread := Script.GrowsTo.of_eq (keepsScript_skip _ _ _ skipped)
          obtain ⟨grown, rightRooted⟩ := ih.expressionFrom _ _ _ _ rightParsed trivial
          have leftPresent := (((leftRooted.grow read).grow reread).grow grown).node
          obtain ⟨added, nodePresent, _⟩ := pushExpression_ok pushed
            (MiddleOperator.rooted_node operator _ leftPresent rightRooted.node)
          obtain ⟨more, rooted⟩ := ih.continued _ _ _ _ _ parsed ⟨nodePresent, by simp⟩
          exact ⟨(((read.trans reread).trans grown).trans added).trans more, rooted⟩

theorem rootsExpressions (bound : Nat) : RootsExpressions bound := by
  induction bound with
  | zero =>
      constructor
      all_goals
        intros
        intro cursor after result parsed
        cases parsed
  | succ bound ih =>
      refine ⟨roots_operand ih, roots_unary ih, roots_listUntil ih, roots_suffixOf ih, ?_,
        roots_continued ih⟩
      intro power cursor after result parsed _
      simp only [expressionFrom] at parsed
      obtain ⟨left, middle, leftParsed, parsed⟩ := bind_ok parsed
      obtain ⟨grown, leftRooted⟩ := ih.operand _ _ _ leftParsed trivial
      obtain ⟨more, rooted⟩ := ih.continued _ _ _ _ _ parsed leftRooted
      exact ⟨grown.trans more, rooted⟩

/-- A whole expression only adds expressions, and its node is present. -/
theorem roots_expression (bound : Nat) :
    Roots (expression bound) (fun _ => True) ParsedExpression.Rooted :=
  (rootsExpressions bound).expressionFrom 0

/-!
## Statements
-/

/-- The production only adds to the script, and what it gives is laid out in the
slots that it adds. -/
def Lays {α : Type} (production : Parse α) (laid : Script → α → Nat → Nat → Prop) : Prop :=
  ∀ (cursor after : Cursor) (result : α), production cursor = .ok (result, after) →
    cursor.script.Planted → cursor.script.Extends after.script ∧ after.script.Planted ∧
      laid after.script result cursor.script.statements.size after.script.statements.size

/-- A statement with its bodies fills the slots, and nothing follows it yet. -/
def StatementLaid (script : Script) (this : StatementRef) (start stop : Nat) : Prop :=
  (∃ tree : StatementTree, tree.Laid script start this) ∧ script.next this = none ∧
    this.index + 1 = stop

/-- Statements that are not chained yet fill the slots. -/
def SequenceLaid (script : Script) (row : List StatementRef) (start stop : Nat) : Prop :=
  ∃ trees, RowLaid script trees row start stop

/-- A body fills the slots. -/
def BodyLaid (script : Script) (head : Option StatementRef) (start stop : Nat) : Prop :=
  ∃ body, BlockLaid script body head start stop

/-- The bodies of branches fill the slots. -/
def BranchesLaid (script : Script)
    (branches : List (ExpressionRef × Option StatementRef) × Option (Option StatementRef))
    (start stop : Nat) : Prop :=
  ∃ tree : BranchTree, tree.Laid script branches.1 branches.2 start stop

theorem BodyLaid.grow {old new : Script} {head : Option StatementRef} {start stop : Nat}
    (laid : BodyLaid old head start stop) (grown : old.Extends new)
    (inside : stop ≤ old.statements.size) : BodyLaid new head start stop := by
  obtain ⟨body, bodyLaid⟩ := laid
  exact ⟨body, bodyLaid.keep grown.expressions body fun index _ upper =>
    grown.statements index (by omega)⟩

theorem BranchesLaid.grow {old new : Script}
    {branches : List (ExpressionRef × Option StatementRef) × Option (Option StatementRef)}
    {start stop : Nat} (laid : BranchesLaid old branches start stop) (grown : old.Extends new)
    (inside : stop ≤ old.statements.size) : BranchesLaid new branches start stop := by
  obtain ⟨tree, treeLaid⟩ := laid
  exact ⟨tree, treeLaid.keep grown.expressions tree fun index _ upper =>
    grown.statements index (by omega)⟩

theorem pushStatement_ok {node : Statement} {cursor after : Cursor} {this : StatementRef}
    (parsed : pushStatement node cursor = .ok (this, after)) :
    after.script = (cursor.script.pushStatement node).2 ∧
      this.index = cursor.script.statements.size ∧ after.script.statement? this = some node ∧
      after.script.next this = none ∧ this.index + 1 = after.script.statements.size := by
  cases parsed
  refine ⟨rfl, rfl, cursor.script.statement?_pushStatement node, ?_, ?_⟩
  · simp [Script.next]
  · simp

/-- Pushing a statement lays it out if its tree can be given in the grown script. -/
theorem lays_pushStatement {node : Statement} {cursor after : Cursor} {this : StatementRef}
    (parsed : pushStatement node cursor = .ok (this, after)) (planted : cursor.script.Planted)
    {start : Nat} (tree : cursor.script.Extends after.script →
      this.index = cursor.script.statements.size →
      after.script.statement? this = some node → ∃ tree : StatementTree,
        tree.Laid after.script start this) :
    cursor.script.Extends after.script ∧ after.script.Planted ∧
      StatementLaid after.script this start after.script.statements.size := by
  obtain ⟨pushed, own, found, alone, stop⟩ := pushStatement_ok parsed
  have grown : cursor.script.Extends after.script :=
    pushed ▸ cursor.script.extends_pushStatement node
  exact ⟨grown, planted.of_expressions_eq (by rw [pushed]; rfl), tree grown own found, alone, stop⟩

theorem printedRest_roots (bound : Nat) :
    Roots (printedRest bound) (fun _ => True)
      fun script nodes => ∀ node ∈ nodes, node.index < script.expressions.size := by
  induction bound with
  | zero =>
      intro cursor after result parsed
      cases parsed
  | succ bound ih =>
      intro cursor after result parsed _
      simp only [printedRest] at parsed
      obtain ⟨more, first, moreRead, parsed⟩ := bind_ok parsed
      have read := Script.GrowsTo.of_eq (keepsScript_accept _ _ _ _ moreRead)
      split at parsed
      · obtain ⟨value, second, valueParsed, parsed⟩ := bind_ok parsed
        obtain ⟨rest, third, restParsed, finished⟩ := bind_ok parsed
        obtain ⟨grown, rooted⟩ := roots_expression _ _ _ _ valueParsed trivial
        obtain ⟨added, present⟩ := ih _ _ _ restParsed trivial
        cases finished
        refine ⟨(read.trans grown).trans added, ?_⟩
        intro node member
        rcases List.mem_cons.mp member with rfl | member
        · exact (rooted.grow added).node
        · exact present node member
      · cases parsed
        exact ⟨read, by simp⟩

/-- What a production for expressions leaves behind for the statement that is
pushed next. -/
private theorem lays_after {before middle : Script} {after : Cursor} {this : StatementRef}
    (grown : before.GrowsTo middle)
    (laid : middle.Extends after.script ∧ after.script.Planted ∧
      StatementLaid after.script this middle.statements.size after.script.statements.size) :
    before.Extends after.script ∧ after.script.Planted ∧
      StatementLaid after.script this before.statements.size after.script.statements.size := by
  rw [grown.statements] at laid
  exact ⟨grown.toExtends.trans laid.1, laid.2⟩

private theorem lays_assignmentOrExpression (bound : Nat) :
    Lays (assignmentOrExpression bound) StatementLaid := by
  intro cursor after this parsed planted
  simp only [assignmentOrExpression] at parsed
  obtain ⟨left, first, leftParsed, parsed⟩ := bind_ok parsed
  obtain ⟨token, second, tokenRead, parsed⟩ := bind_ok parsed
  obtain ⟨grown, leftRooted⟩ := roots_expression _ _ _ _ leftParsed trivial
  have read := Script.GrowsTo.of_eq (keepsScript_peek _ _ _ tokenRead)
  have early := grown.trans read
  generalize assignOperator? token.kind = operator? at parsed
  cases operator? with
  | none =>
      refine lays_after early (lays_pushStatement parsed (early.planted planted) ?_)
      intro more own found
      obtain ⟨tree, treeAt⟩ := early.planted planted _ (leftRooted.grow read).node
      exact ⟨.expression tree, _, found, treeAt.grow more.expressions tree, own.symm⟩
  | some operator =>
      obtain ⟨_, third, skipped, parsed⟩ := bind_ok parsed
      have reread := Script.GrowsTo.of_eq (keepsScript_skip _ _ _ skipped)
      obtain ⟨node, leftSpan, target?⟩ := left
      cases target? with
      | none => exact (refuse_ok parsed).elim
      | some target =>
          obtain ⟨value, fourth, valueParsed, parsed⟩ := bind_ok parsed
          obtain ⟨added, valueRooted⟩ := roots_expression _ _ _ _ valueParsed trivial
          have late := (early.trans reread).trans added
          have targetRooted : target.Rooted fourth.script :=
            (leftRooted.target target rfl).grow ((read.trans reread).trans added).le
          refine lays_after late (lays_pushStatement parsed (late.planted planted) ?_)
          intro more own found
          obtain ⟨valueTree, valueAt⟩ := late.planted planted _ valueRooted.node
          have valueStands := valueAt.grow more.expressions valueTree
          cases target with
          | name identifier =>
              exact ⟨.assignName identifier operator valueTree _, _, found, valueStands, own.symm⟩
          | member object memberName =>
              obtain ⟨objectTree, objectAt⟩ := late.planted planted object targetRooted
              exact ⟨.assignMember objectTree memberName operator valueTree _, _, _, found,
                objectAt.grow more.expressions objectTree, valueStands, own.symm⟩
          | element object index =>
              obtain ⟨objectTree, objectAt⟩ := late.planted planted object targetRooted.1
              obtain ⟨indexTree, indexAt⟩ := late.planted planted index targetRooted.2
              exact ⟨.assignElement objectTree indexTree operator valueTree _, _, _, _, found,
                objectAt.grow more.expressions objectTree,
                indexAt.grow more.expressions indexTree, valueStands, own.symm⟩

theorem lays_simpleStatement (bound : Nat) :
    Lays (simpleStatement bound) StatementLaid := by
  intro cursor after this parsed planted
  simp only [simpleStatement] at parsed
  obtain ⟨token, first, tokenRead, parsed⟩ := bind_ok parsed
  have read := Script.GrowsTo.of_eq (keepsScript_peek _ _ _ tokenRead)
  generalize token.kind = kind at parsed
  split at parsed
  · obtain ⟨_, second, skipped, parsed⟩ := bind_ok parsed
    obtain ⟨ended, third, endRead, parsed⟩ := bind_ok parsed
    have early := (read.trans (.of_eq (keepsScript_skip _ _ _ skipped))).trans
      (.of_eq (keepsScript_atTerminator _ _ _ endRead))
    split at parsed
    · refine lays_after early (lays_pushStatement parsed (early.planted planted) ?_)
      exact fun _ own found => ⟨.print [], [], found, trivial, own.symm⟩
    · obtain ⟨value, fourth, valueParsed, parsed⟩ := bind_ok parsed
      obtain ⟨rest, fifth, restParsed, parsed⟩ := bind_ok parsed
      obtain ⟨grown, valueRooted⟩ := roots_expression _ _ _ _ valueParsed trivial
      obtain ⟨added, restPresent⟩ := printedRest_roots _ _ _ _ restParsed trivial
      have late := (early.trans grown).trans added
      refine lays_after late (lays_pushStatement parsed (late.planted planted) ?_)
      intro more own found
      obtain ⟨trees, treesAt⟩ := (late.planted planted).all
        (List.forall_mem_cons.mpr ⟨(valueRooted.grow added).node, restPresent⟩)
      exact ⟨.print trees, _, found, (treesAt.grow more.expressions trees).mono
        more.expressions.le, own.symm⟩
  · obtain ⟨_, second, skipped, parsed⟩ := bind_ok parsed
    have early := read.trans (.of_eq (keepsScript_skip _ _ _ skipped))
    refine lays_after early (lays_pushStatement parsed (early.planted planted) ?_)
    exact fun _ own found => ⟨.pass, found, own.symm⟩
  · obtain ⟨_, second, skipped, parsed⟩ := bind_ok parsed
    have early := read.trans (.of_eq (keepsScript_skip _ _ _ skipped))
    refine lays_after early (lays_pushStatement parsed (early.planted planted) ?_)
    exact fun _ own found => ⟨.continueLoop _, found, own.symm⟩
  · obtain ⟨_, second, skipped, parsed⟩ := bind_ok parsed
    obtain ⟨number?, third, numberRead, parsed⟩ := bind_ok parsed
    have early := (read.trans (.of_eq (keepsScript_skip _ _ _ skipped))).trans
      (.of_eq (keepsScript_accept? _ _ _ _ numberRead))
    cases number? with
    | none =>
        refine lays_after early (lays_pushStatement parsed (early.planted planted) ?_)
        exact fun _ own found => ⟨.breakLoops 1 _, found, own.symm⟩
    | some number =>
        dsimp only at parsed
        generalize number.count? = count? at parsed
        cases count? with
        | none => exact (refuse_ok parsed).elim
        | some count =>
            refine lays_after early (lays_pushStatement parsed (early.planted planted) ?_)
            exact fun _ own found => ⟨.breakLoops count _, found, own.symm⟩
  · obtain ⟨_, second, skipped, parsed⟩ := bind_ok parsed
    obtain ⟨ended, third, endRead, parsed⟩ := bind_ok parsed
    have early := (read.trans (.of_eq (keepsScript_skip _ _ _ skipped))).trans
      (.of_eq (keepsScript_atTerminator _ _ _ endRead))
    split at parsed
    · refine lays_after early (lays_pushStatement parsed (early.planted planted) ?_)
      exact fun _ own found => ⟨.returnValue none, found, own.symm⟩
    · obtain ⟨value, fourth, valueParsed, parsed⟩ := bind_ok parsed
      obtain ⟨grown, valueRooted⟩ := roots_expression _ _ _ _ valueParsed trivial
      have late := early.trans grown
      refine lays_after late (lays_pushStatement parsed (late.planted planted) ?_)
      intro more own found
      obtain ⟨tree, treeAt⟩ := late.planted planted _ valueRooted.node
      exact ⟨.returnValue (some tree), _, found, treeAt.grow more.expressions tree, own.symm⟩
  · obtain ⟨_, second, skipped, parsed⟩ := bind_ok parsed
    obtain ⟨⟨deleted, span⟩, third, nameRead, parsed⟩ := bind_ok parsed
    have early := (read.trans (.of_eq (keepsScript_skip _ _ _ skipped))).trans
      (.of_eq (keepsScript_name _ _ _ nameRead))
    refine lays_after early (lays_pushStatement parsed (early.planted planted) ?_)
    exact fun _ own found => ⟨.delete deleted _, found, own.symm⟩
  · refine lays_after read ?_
    exact lays_assignmentOrExpression bound _ _ _ parsed (read.planted planted)

/-!
## Compounds
-/

/-- A compound is pushed behind its bodies, which come behind its expressions. -/
private theorem lays_behind {before : Script} {opened inner closed after : Cursor}
    {node : Statement} {this : StatementRef} (early : before.GrowsTo opened.script)
    (bodies : opened.script.Extends inner.script) (planted : inner.script.Planted)
    (closing : closed.script = inner.script)
    (pushed : pushStatement node closed = .ok (this, after))
    (tree : inner.script.Extends after.script → this.index = inner.script.statements.size →
      after.script.statement? this = some node → ∃ tree : StatementTree,
        tree.Laid after.script opened.script.statements.size this) :
    before.Extends after.script ∧ after.script.Planted ∧
      StatementLaid after.script this before.statements.size after.script.statements.size := by
  rw [← closing] at bodies planted tree
  obtain ⟨grown, stillPlanted, laid⟩ := lays_pushStatement pushed planted tree
  rw [early.statements] at laid
  exact ⟨early.toExtends.trans (bodies.trans grown), stillPlanted, laid⟩

/-- The productions for statements fill the slots that they add. -/
structure LaysStatements (bound : Nat) : Prop where
  sequence : ∀ ends, Lays (sequence bound ends) SequenceLaid
  statement : Lays (statement bound) StatementLaid
  block : Lays (block bound) fun script result => BodyLaid script result.1
  furtherBranches : ∀ severalLines, Lays (furtherBranches bound severalLines) BranchesLaid
  recordBody : Lays (recordBody bound) BodyLaid

private theorem lays_sequence {bound : Nat} (ih : LaysStatements bound) (ends : List TokenKind) :
    Lays (sequence (bound + 1) ends) SequenceLaid := by
  intro cursor after row parsed planted
  simp only [sequence] at parsed
  obtain ⟨_, first, skipped, parsed⟩ := bind_ok parsed
  obtain ⟨token, second, tokenRead, parsed⟩ := bind_ok parsed
  have early := (Script.GrowsTo.of_eq (keepsScript_skipKinds _ _ _ _ skipped)).trans
    (.of_eq (keepsScript_peek _ _ _ tokenRead))
  split at parsed
  · cases parsed
    exact ⟨early.toExtends, early.planted planted, [], congrArg Array.size early.statements.symm⟩
  · split at parsed
    · exact (refuse_ok parsed).elim
    · obtain ⟨this, third, thisParsed, parsed⟩ := bind_ok parsed
      obtain ⟨rest, fourth, restParsed, finished⟩ := bind_ok parsed
      obtain ⟨grown, planted, thisLaid, alone, stop⟩ :=
        ih.statement _ _ _ thisParsed (early.planted planted)
      obtain ⟨more, planted, trees, restLaid⟩ := ih.sequence _ _ _ _ restParsed planted
      cases finished
      obtain ⟨tree, treeLaid⟩ := thisLaid
      rw [early.statements] at treeLaid
      exact ⟨early.toExtends.trans (grown.trans more), planted, tree :: trees,
        restLaid.cons more treeLaid alone stop⟩

/-- A condition with its block and the branches behind it. -/
private theorem lays_tested {bound : Nat} (ih : LaysStatements bound)
    {cursor first second after : Cursor} {condition : ParsedExpression}
    {head : Option StatementRef} {severalLines : Bool}
    {branches : List (ExpressionRef × Option StatementRef)}
    {otherwise : Option (Option StatementRef)}
    (conditionParsed : expression bound cursor = .ok (condition, first))
    (blockParsed : block bound first = .ok ((head, severalLines), second))
    (branchesParsed : furtherBranches bound severalLines second =
      .ok ((branches, otherwise), after)) (planted : cursor.script.Planted) :
    cursor.script.Extends after.script ∧ after.script.Planted ∧
      BranchesLaid after.script ((condition.node, head) :: branches, otherwise)
        cursor.script.statements.size after.script.statements.size := by
  obtain ⟨grown, conditionRooted⟩ := roots_expression _ _ _ _ conditionParsed trivial
  obtain ⟨tree, treeAt⟩ := grown.planted planted _ conditionRooted.node
  obtain ⟨bodyGrown, planted, bodyLaid⟩ := ih.block _ _ _ blockParsed (grown.planted planted)
  obtain ⟨restGrown, planted, rest, restLaid⟩ :=
    ih.furtherBranches _ _ _ _ branchesParsed planted
  obtain ⟨body, bodyStands⟩ := bodyLaid.grow restGrown (Nat.le_refl _)
  have added := bodyGrown.trans restGrown
  rw [grown.statements] at bodyStands
  exact ⟨grown.toExtends.trans added, planted, .test tree body rest, _, _, _, _, rfl,
    treeAt.grow added.expressions tree, bodyStands, restLaid⟩

/-- What a loop evaluates, with its body. -/
private theorem lays_loop {bound : Nat} (ih : LaysStatements bound)
    {cursor first second after : Cursor} {value : ParsedExpression}
    {head : Option StatementRef} {severalLines : Bool}
    (valueParsed : expression bound cursor = .ok (value, first))
    (blockParsed : block bound first = .ok ((head, severalLines), second))
    (closed : closeCompound severalLines second = .ok ((), after))
    (planted : cursor.script.Planted) :
    cursor.script.Extends after.script ∧ after.script.Planted ∧
      (∃ tree : ExpressionTree, tree.At after.script value.node) ∧
      BodyLaid after.script head cursor.script.statements.size after.script.statements.size := by
  obtain ⟨grown, valueRooted⟩ := roots_expression _ _ _ _ valueParsed trivial
  obtain ⟨tree, treeAt⟩ := grown.planted planted _ valueRooted.node
  obtain ⟨bodyGrown, planted, bodyLaid⟩ := ih.block _ _ _ blockParsed (grown.planted planted)
  rw [keepsScript_closeCompound _ _ _ _ closed]
  rw [grown.statements] at bodyLaid
  exact ⟨grown.toExtends.trans bodyGrown, planted, ⟨tree, treeAt.grow bodyGrown.expressions tree⟩,
    bodyLaid⟩

private theorem lays_compoundStatement {bound : Nat} (ih : LaysStatements bound) :
    Lays (statement (bound + 1)) StatementLaid := by
  intro cursor after this parsed planted
  simp only [statement] at parsed
  obtain ⟨token, first, tokenRead, parsed⟩ := bind_ok parsed
  have read := Script.GrowsTo.of_eq (keepsScript_peek _ _ _ tokenRead)
  generalize token.kind = kind at parsed
  split at parsed
  · obtain ⟨_, second, skipped, parsed⟩ := bind_ok parsed
    obtain ⟨condition, third, conditionParsed, parsed⟩ := bind_ok parsed
    obtain ⟨⟨head, severalLines⟩, fourth, blockParsed, parsed⟩ := bind_ok parsed
    obtain ⟨⟨branches, otherwise⟩, fifth, branchesParsed, parsed⟩ := bind_ok parsed
    have early := read.trans (.of_eq (keepsScript_skip _ _ _ skipped))
    obtain ⟨grown, planted, laid⟩ :=
      lays_tested ih conditionParsed blockParsed branchesParsed (early.planted planted)
    refine lays_behind early grown planted rfl parsed ?_
    intro more own found
    obtain ⟨tree, stands⟩ := laid.grow more (Nat.le_refl _)
    rw [← own] at stands
    exact ⟨.branch tree, _, _, found, stands⟩
  · obtain ⟨_, second, skipped, parsed⟩ := bind_ok parsed
    obtain ⟨condition, third, conditionParsed, parsed⟩ := bind_ok parsed
    obtain ⟨⟨head, severalLines⟩, fourth, blockParsed, parsed⟩ := bind_ok parsed
    obtain ⟨_, fifth, closed, parsed⟩ := bind_ok parsed
    have early := read.trans (.of_eq (keepsScript_skip _ _ _ skipped))
    obtain ⟨grown, planted, ⟨tree, treeAt⟩, bodyLaid⟩ :=
      lays_loop ih conditionParsed blockParsed closed (early.planted planted)
    refine lays_behind early grown planted rfl parsed ?_
    intro more own found
    obtain ⟨body, bodyStands⟩ := bodyLaid.grow more (Nat.le_refl _)
    rw [← own] at bodyStands
    exact ⟨.whileLoop tree body, _, _, found, treeAt.grow more.expressions tree, bodyStands⟩
  · obtain ⟨_, second, skipped, parsed⟩ := bind_ok parsed
    obtain ⟨⟨item, itemSpan⟩, third, nameRead, parsed⟩ := bind_ok parsed
    obtain ⟨inWord, fourth, inRead, parsed⟩ := bind_ok parsed
    obtain ⟨iterable, fifth, iterableParsed, parsed⟩ := bind_ok parsed
    obtain ⟨⟨head, severalLines⟩, sixth, blockParsed, parsed⟩ := bind_ok parsed
    obtain ⟨_, seventh, closed, parsed⟩ := bind_ok parsed
    have early := ((read.trans (.of_eq (keepsScript_skip _ _ _ skipped))).trans
      (.of_eq (keepsScript_name _ _ _ nameRead))).trans
      (.of_eq (keepsScript_expect _ _ _ _ inRead))
    obtain ⟨grown, planted, ⟨tree, treeAt⟩, bodyLaid⟩ :=
      lays_loop ih iterableParsed blockParsed closed (early.planted planted)
    refine lays_behind early grown planted rfl parsed ?_
    intro more own found
    obtain ⟨body, bodyStands⟩ := bodyLaid.grow more (Nat.le_refl _)
    rw [← own] at bodyStands
    exact ⟨.forLoop item tree body _, _, _, found, treeAt.grow more.expressions tree, bodyStands⟩
  · obtain ⟨_, second, skipped, parsed⟩ := bind_ok parsed
    obtain ⟨⟨function, functionSpan⟩, third, nameRead, parsed⟩ := bind_ok parsed
    obtain ⟨parenthesis, fourth, parenthesisRead, parsed⟩ := bind_ok parsed
    obtain ⟨names, fifth, namesRead, parsed⟩ := bind_ok parsed
    obtain ⟨⟨head, severalLines⟩, sixth, blockParsed, parsed⟩ := bind_ok parsed
    obtain ⟨_, seventh, closed, parsed⟩ := bind_ok parsed
    have early := (((read.trans (.of_eq (keepsScript_skip _ _ _ skipped))).trans
      (.of_eq (keepsScript_name _ _ _ nameRead))).trans
      (.of_eq (keepsScript_expect _ _ _ _ parenthesisRead))).trans
      (.of_eq (keepsScript_parameters _ _ _ _ namesRead))
    obtain ⟨bodyGrown, planted, bodyLaid⟩ := ih.block _ _ _ blockParsed (early.planted planted)
    refine lays_behind early bodyGrown planted (keepsScript_closeCompound _ _ _ _ closed) parsed ?_
    intro more own found
    obtain ⟨body, bodyStands⟩ := bodyLaid.grow more (Nat.le_refl _)
    rw [← own] at bodyStands
    exact ⟨.define function names head body, found, bodyStands⟩
  · obtain ⟨_, second, skipped, parsed⟩ := bind_ok parsed
    obtain ⟨⟨record, recordSpan⟩, third, nameRead, parsed⟩ := bind_ok parsed
    obtain ⟨head, fourth, bodyParsed, parsed⟩ := bind_ok parsed
    have early := (read.trans (.of_eq (keepsScript_skip _ _ _ skipped))).trans
      (.of_eq (keepsScript_name _ _ _ nameRead))
    obtain ⟨bodyGrown, planted, bodyLaid⟩ := ih.recordBody _ _ _ bodyParsed (early.planted planted)
    refine lays_behind early bodyGrown planted rfl parsed ?_
    intro more own found
    obtain ⟨body, bodyStands⟩ := bodyLaid.grow more (Nat.le_refl _)
    rw [← own] at bodyStands
    exact ⟨.record record body _, _, found, bodyStands⟩
  · obtain ⟨simple, second, simpleParsed, parsed⟩ := bind_ok parsed
    obtain ⟨_, third, ended, finished⟩ := bind_ok parsed
    have laid := lays_after read
      (lays_simpleStatement bound _ _ _ simpleParsed (read.planted planted))
    cases finished
    rw [keepsScript_terminator _ _ _ ended]
    exact laid

private theorem lays_block {bound : Nat} (ih : LaysStatements bound) :
    Lays (block (bound + 1)) fun script result => BodyLaid script result.1 := by
  intro cursor after result parsed planted
  simp only [block] at parsed
  obtain ⟨colon, first, colonRead, parsed⟩ := bind_ok parsed
  have read := Script.GrowsTo.of_eq (keepsScript_accept _ _ _ _ colonRead)
  split at parsed
  · obtain ⟨simple, second, simpleParsed, parsed⟩ := bind_ok parsed
    obtain ⟨_, third, ended, finished⟩ := bind_ok parsed
    obtain ⟨grown, planted, ⟨tree, treeLaid⟩, alone, stop⟩ := lays_after read
      (lays_simpleStatement bound _ _ _ simpleParsed (read.planted planted))
    cases finished
    rw [keepsScript_terminator _ _ _ ended]
    exact ⟨grown, planted, [tree], simple, rfl, treeLaid, alone, stop⟩
  · obtain ⟨token, second, tokenRead, parsed⟩ := bind_ok parsed
    have early := read.trans (.of_eq (keepsScript_next _ _ _ tokenRead))
    generalize token.kind = kind at parsed
    split at parsed
    · obtain ⟨row, third, rowParsed, parsed⟩ := bind_ok parsed
      obtain ⟨head, fourth, linked, finished⟩ := bind_ok parsed
      obtain ⟨grown, planted, trees, rowLaid⟩ :=
        ih.sequence _ _ _ _ rowParsed (early.planted planted)
      cases linked
      cases finished
      obtain ⟨blockLaid, outside⟩ := rowLaid.link (Nat.le_refl _)
      have before := grown.statements_le
      refine ⟨early.toExtends.trans ⟨?_, ?_⟩, ?_, trees, ?_⟩
      · intro index present
        simp only [Script.link_expressions]
        exact grown.expressions index present
      · intro index present
        exact (outside index (.inl present)).trans (grown.statements index present)
      · exact planted.of_expressions_eq (Script.link_expressions _ _)
      · rw [← early.statements, Script.link_size]
        exact blockLaid
    · exact (refuse_ok parsed).elim
    · exact (refuse_ok parsed).elim

private theorem lays_furtherBranches {bound : Nat} (ih : LaysStatements bound)
    (severalLines : Bool) : Lays (furtherBranches (bound + 1) severalLines) BranchesLaid := by
  intro cursor after result parsed planted
  simp only [furtherBranches] at parsed
  obtain ⟨_, first, skipped, parsed⟩ := bind_ok parsed
  obtain ⟨tested, second, testRead, parsed⟩ := bind_ok parsed
  have read := (Script.GrowsTo.of_eq (keepsScript_skipKinds _ _ _ _ skipped)).trans
    (.of_eq (keepsScript_accept _ _ _ _ testRead))
  split at parsed
  · obtain ⟨condition, third, conditionParsed, parsed⟩ := bind_ok parsed
    obtain ⟨⟨head, severalLines⟩, fourth, blockParsed, parsed⟩ := bind_ok parsed
    obtain ⟨⟨branches, otherwise⟩, fifth, branchesParsed, finished⟩ := bind_ok parsed
    obtain ⟨grown, planted, laid⟩ :=
      lays_tested ih conditionParsed blockParsed branchesParsed (read.planted planted)
    cases finished
    rw [read.statements] at laid
    exact ⟨read.toExtends.trans grown, planted, laid⟩
  · obtain ⟨otherwise, third, otherwiseRead, parsed⟩ := bind_ok parsed
    have early := read.trans (.of_eq (keepsScript_accept _ _ _ _ otherwiseRead))
    split at parsed
    · obtain ⟨⟨head, severalLines⟩, fourth, blockParsed, parsed⟩ := bind_ok parsed
      obtain ⟨_, fifth, closed, finished⟩ := bind_ok parsed
      obtain ⟨grown, planted, body, bodyLaid⟩ :=
        ih.block _ _ _ blockParsed (early.planted planted)
      cases finished
      rw [keepsScript_closeCompound _ _ _ _ closed]
      rw [early.statements] at bodyLaid
      exact ⟨early.toExtends.trans grown, planted, .otherwise body, head, rfl, rfl, bodyLaid⟩
    · obtain ⟨_, fourth, closed, finished⟩ := bind_ok parsed
      have late := early.trans (.of_eq (keepsScript_closeCompound _ _ _ _ closed))
      cases finished
      exact ⟨late.toExtends, late.planted planted, .missing, rfl, rfl,
        congrArg Array.size late.statements.symm⟩

private theorem lays_recordBody {bound : Nat} (ih : LaysStatements bound) :
    Lays (recordBody (bound + 1)) BodyLaid := by
  intro cursor after head parsed planted
  simp only [recordBody] at parsed
  obtain ⟨token, first, tokenRead, parsed⟩ := bind_ok parsed
  have read := Script.GrowsTo.of_eq (keepsScript_peek _ _ _ tokenRead)
  generalize token.kind = kind at parsed
  split at parsed
  iterate 2
    obtain ⟨_, second, ended, finished⟩ := bind_ok parsed
    have early := read.trans (.of_eq (keepsScript_terminator _ _ _ ended))
    cases finished
    exact ⟨early.toExtends, early.planted planted, [], rfl,
      congrArg Array.size early.statements.symm⟩
  · obtain ⟨⟨inner, severalLines⟩, second, blockParsed, parsed⟩ := bind_ok parsed
    obtain ⟨_, third, closed, finished⟩ := bind_ok parsed
    obtain ⟨grown, planted, body, bodyLaid⟩ := ih.block _ _ _ blockParsed (read.planted planted)
    cases finished
    rw [keepsScript_closeCompound _ _ _ _ closed]
    rw [read.statements] at bodyLaid
    exact ⟨read.toExtends.trans grown, planted, body, bodyLaid⟩

theorem laysStatements (bound : Nat) : LaysStatements bound := by
  induction bound with
  | zero =>
      constructor
      all_goals
        intros
        intro cursor after result parsed
        cases parsed
  | succ bound ih =>
      exact ⟨lays_sequence ih, lays_compoundStatement ih, lays_block ih, lays_furtherBranches ih,
        lays_recordBody ih⟩

end Parse

/-!
## Scripts that the parser gives
-/

/-- Every node spells a tree, and the statements from the first one on are a
block that fills all slots. -/
structure Script.Whole (script : Script) : Prop where
  planted : script.Planted
  laid : ∃ tree, BlockLaid script tree script.first 0 script.statements.size

namespace Parse

/-- A production that reads a whole source, from a script without statements,
gives a script that is laid out from its first slot to its last. -/
theorem program_whole {bound : Nat} {cursor after : Cursor} {script : Script}
    (parsed : program bound cursor = .ok (script, after)) (planted : cursor.script.Planted)
    (unused : cursor.script.statements.size = 0) : script.Whole := by
  simp only [program] at parsed
  obtain ⟨row, first, rowParsed, parsed⟩ := bind_ok parsed
  obtain ⟨token, second, tokenRead, parsed⟩ := bind_ok parsed
  obtain ⟨head, third, linked, parsed⟩ := bind_ok parsed
  obtain ⟨grown, planted, trees, rowLaid⟩ :=
    (laysStatements bound).sequence _ _ _ _ rowParsed planted
  have read := keepsScript_expect _ _ _ _ tokenRead
  cases linked
  cases parsed
  rw [← read] at rowLaid planted
  rw [unused] at rowLaid
  exact ⟨planted.of_expressions_eq (Script.link_expressions _ _), trees, rowLaid.finish⟩

end Parse

/-- What a parser may have done to a cursor before it reads a script: it was put
at the beginning of a source, and expressions were taken from it. -/
inductive Cursor.Reached : Cursor → Prop where
  | source (source : String) : Cursor.Reached (Cursor.ofSource source)
  | expression {cursor after : Cursor} {node : ExpressionRef} (reached : cursor.Reached)
      (taken : cursor.takeExpression = .ok (node, after)) : after.Reached

namespace Cursor

theorem parse_ok {α : Type} {cursor after : Cursor} {production : Nat → Parse α} {result : α}
    (parsed : cursor.parse production = .ok (result, after)) :
    production cursor.depthBound cursor = .ok (result, after) := by
  unfold parse at parsed
  split at parsed
  · next answer found => rw [found, Except.ok.inj parsed]
  · cases parsed
  · cases parsed

theorem takeExpression_ok {cursor after : Cursor} {node : ExpressionRef}
    (taken : cursor.takeExpression = .ok (node, after)) :
    ∃ parsed : ParsedExpression, parsed.node = node ∧
      Parse.expression cursor.depthBound cursor = .ok (parsed, after) := by
  unfold takeExpression at taken
  cases parsed : cursor.parse Parse.expression with
  | error failure =>
      rw [parsed] at taken
      cases taken
  | ok answer =>
      rw [parsed] at taken
      cases taken
      exact ⟨answer.1, rfl, parse_ok parsed⟩

theorem finish_ok {cursor : Cursor} {script : Script} (finished : cursor.finish = .ok script) :
    ∃ after, Parse.program cursor.depthBound cursor = .ok (script, after) := by
  unfold finish at finished
  cases parsed : cursor.parse Parse.program with
  | error failure =>
      rw [parsed] at finished
      cases finished
  | ok answer =>
      rw [parsed] at finished
      cases finished
      exact ⟨answer.2, parse_ok parsed⟩

/-- Taking an expression only adds expressions, and the node is present. -/
theorem takeExpression_roots {cursor after : Cursor} {node : ExpressionRef}
    (taken : cursor.takeExpression = .ok (node, after)) :
    cursor.script.GrowsTo after.script ∧ node.index < after.script.expressions.size := by
  obtain ⟨result, rfl, parsed⟩ := takeExpression_ok taken
  obtain ⟨grown, rooted⟩ := Parse.roots_expression _ _ _ _ parsed trivial
  exact ⟨grown, rooted.node⟩

theorem Reached.planted {cursor : Cursor} (reached : cursor.Reached) : cursor.script.Planted := by
  induction reached with
  | source source => exact Script.planted_empty
  | expression _ taken ih => exact (takeExpression_roots taken).1.planted ih

theorem Reached.unused {cursor : Cursor} (reached : cursor.Reached) :
    cursor.script.statements.size = 0 ∧ cursor.script.first = none := by
  induction reached with
  | source source => exact ⟨rfl, rfl⟩
  | expression _ taken ih =>
      obtain ⟨grown, _⟩ := takeExpression_roots taken
      rw [grown.statements, grown.first]
      exact ih

theorem Reached.finish_whole {cursor : Cursor} (reached : cursor.Reached) {script : Script}
    (finished : cursor.finish = .ok script) : script.Whole := by
  obtain ⟨after, parsed⟩ := finish_ok finished
  exact Parse.program_whole parsed reached.planted reached.unused.1

end Cursor

/-- The scripts that come out of a parser: what it has built when it has read some
expressions, and what it gives at the end of the source. -/
inductive Script.Parsed : Script → Prop where
  | building {cursor : Cursor} (reached : cursor.Reached) : Script.Parsed cursor.script
  | finished {cursor : Cursor} {script : Script} (reached : cursor.Reached)
      (finished : cursor.finish = .ok script) : Script.Parsed script

theorem Script.parsed_ofSource {source : String} {script : Script}
    (accepted : Script.ofSource source = .ok script) : script.Parsed :=
  .finished (.source source) accepted

/-- Every expression of a script that the parser built spells a tree. -/
theorem Script.Parsed.planted {script : Script} (parsed : script.Parsed) : script.Planted := by
  cases parsed with
  | building reached => exact reached.planted
  | finished reached finished => exact (reached.finish_whole finished).planted

end ScriptEngine
