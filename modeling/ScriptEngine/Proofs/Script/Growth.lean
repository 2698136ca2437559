import ScriptEngine.Proofs.Script.Tree

/-!
# Growing scripts

A script that is being built only grows: new nodes come behind the old ones, and
linking a sequence changes no slot outside of it. So what an old part of the
script spells stays as it is, and a row of statements that have not been chained
yet becomes a block when it is linked (`RowLaid.link`).
-/

set_option autoImplicit false

namespace ScriptEngine

/-- Every expression of the old script is found at the same place in the new one. -/
def Script.KeepsExpressions (old new : Script) : Prop :=
  ∀ index, index < old.expressions.size → new.expressions[index]? = old.expressions[index]?

/-- Everything in the old script is found at the same place in the new one. -/
structure Script.Extends (old new : Script) : Prop where
  expressions : old.KeepsExpressions new
  statements : ∀ index, index < old.statements.size →
    new.statements[index]? = old.statements[index]?

private theorem size_le_of_kept {α : Type} {old new : Array α}
    (kept : ∀ index, index < old.size → new[index]? = old[index]?) : old.size ≤ new.size := by
  rcases Nat.eq_zero_or_pos old.size with none | some
  · omega
  · have last := kept (old.size - 1) (by omega)
    rw [Array.getElem?_eq_getElem (by omega : old.size - 1 < old.size)] at last
    have present := (Array.getElem?_eq_some_iff.mp last).choose
    omega

theorem Script.KeepsExpressions.le {old new : Script} (kept : old.KeepsExpressions new) :
    old.expressions.size ≤ new.expressions.size :=
  size_le_of_kept kept

theorem Script.KeepsExpressions.expression? {old new : Script} (kept : old.KeepsExpressions new)
    {node : ExpressionRef} {expression : Expression}
    (found : old.expression? node = some expression) :
    new.expression? node = some expression :=
  (kept node.index (Array.getElem?_eq_some_iff.mp found).choose).trans found

namespace Script.Extends

theorem refl (script : Script) : script.Extends script :=
  ⟨fun _ _ => rfl, fun _ _ => rfl⟩

theorem statements_le {old new : Script} (grown : old.Extends new) :
    old.statements.size ≤ new.statements.size :=
  size_le_of_kept grown.statements

theorem trans {first second third : Script} (early : first.Extends second)
    (late : second.Extends third) : first.Extends third where
  expressions index present :=
    (late.expressions index (Nat.lt_of_lt_of_le present early.expressions.le)).trans
      (early.expressions index present)
  statements index present :=
    (late.statements index (Nat.lt_of_lt_of_le present early.statements_le)).trans
      (early.statements index present)

end Script.Extends

/-!
## Trees in a grown script
-/

mutual

theorem ExpressionTree.At.grow {old new : Script} (grown : old.KeepsExpressions new)
    (tree : ExpressionTree) {node : ExpressionRef} (spelled : tree.At old node) :
    tree.At new node := by
  cases tree with
  | constant | name => exact grown.expression? spelled
  | unary operator operand span =>
      obtain ⟨inner, found, before, operandAt⟩ := spelled
      exact ⟨inner, grown.expression? found, before, operandAt.grow grown operand⟩
  | binary operator left right span | shortCircuit operator left right span =>
      obtain ⟨first, second, found, ⟨leftBefore, leftAt⟩, rightBefore, rightAt⟩ := spelled
      exact ⟨first, second, grown.expression? found, ⟨leftBefore, leftAt.grow grown left⟩,
        rightBefore, rightAt.grow grown right⟩
  | member object identifier nameSpan span =>
      obtain ⟨inner, last, found, ⟨objectBefore, objectAt⟩, lastBefore, lastFound⟩ := spelled
      exact ⟨inner, last, grown.expression? found, ⟨objectBefore, objectAt.grow grown object⟩,
        lastBefore, grown.expression? lastFound⟩
  | element object position span =>
      obtain ⟨first, second, found, ⟨objectBefore, objectAt⟩, positionBefore, positionAt⟩ := spelled
      exact ⟨first, second, grown.expression? found, ⟨objectBefore, objectAt.grow grown object⟩,
        positionBefore, positionAt.grow grown position⟩
  | array elements span =>
      obtain ⟨items, found, elementsAt⟩ := spelled
      exact ⟨items, grown.expression? found, ExpressionTree.AllAt.grow grown elements elementsAt⟩
  | call callee arguments span =>
      obtain ⟨first, items, found, ⟨calleeBefore, calleeAt⟩, argumentsAt⟩ := spelled
      exact ⟨first, items, grown.expression? found, ⟨calleeBefore, calleeAt.grow grown callee⟩,
        ExpressionTree.AllAt.grow grown arguments argumentsAt⟩

theorem ExpressionTree.AllAt.grow {old new : Script} (grown : old.KeepsExpressions new)
    (trees : List ExpressionTree) {nodes : List ExpressionRef} {bound : Nat}
    (spelled : ExpressionTree.AllAt old trees nodes bound) :
    ExpressionTree.AllAt new trees nodes bound := by
  cases trees with
  | nil => cases nodes <;> exact spelled
  | cons tree trees =>
      cases nodes with
      | nil => exact spelled
      | cons node nodes =>
          obtain ⟨⟨before, treeAt⟩, restAt⟩ := spelled
          exact ⟨⟨before, treeAt.grow grown tree⟩, ExpressionTree.AllAt.grow grown trees restAt⟩

end

theorem ExpressionTree.AllAt.mono {script : Script} {trees : List ExpressionTree}
    {nodes : List ExpressionRef} {bound larger : Nat}
    (spelled : ExpressionTree.AllAt script trees nodes bound) (le : bound ≤ larger) :
    ExpressionTree.AllAt script trees nodes larger := by
  induction trees generalizing nodes with
  | nil => cases nodes <;> exact spelled
  | cons tree trees ih =>
      cases nodes with
      | nil => exact spelled
      | cons node nodes =>
          obtain ⟨⟨before, treeAt⟩, restAt⟩ := spelled
          exact ⟨⟨Nat.lt_of_lt_of_le before le, treeAt⟩, ih restAt⟩

/-- Every node spells a tree. -/
def Script.Planted (script : Script) : Prop :=
  ∀ node : ExpressionRef, node.index < script.expressions.size →
    ∃ tree : ExpressionTree, tree.At script node

theorem Script.planted_empty : Script.empty.Planted := by
  intro node present
  simp [Script.empty] at present

theorem Script.Planted.all {script : Script} (planted : script.Planted)
    {nodes : List ExpressionRef} (present : ∀ node ∈ nodes, node.index < script.expressions.size) :
    ∃ trees, ExpressionTree.AllAt script trees nodes script.expressions.size := by
  induction nodes with
  | nil => exact ⟨[], trivial⟩
  | cons node nodes ih =>
      obtain ⟨tree, treeAt⟩ := planted node (present node List.mem_cons_self)
      obtain ⟨trees, restAt⟩ := ih fun other member => present other (List.mem_cons_of_mem _ member)
      exact ⟨tree :: trees, ⟨present node List.mem_cons_self, treeAt⟩, restAt⟩

/-- What the parser may push: a node of a form that sources spell, whose children
are present. The last child of a member access is a name. -/
def Expression.Rooted (script : Script) : Expression → Prop
  | .constant _ _ => True
  | .name _ _ => True
  | .unary _ operand _ => operand.index < script.expressions.size
  | .binary _ left right _ =>
      left.index < script.expressions.size ∧ right.index < script.expressions.size
  | .shortCircuit _ left right _ =>
      left.index < script.expressions.size ∧ right.index < script.expressions.size
  | .member object last _ =>
      object.index < script.expressions.size ∧
        ∃ identifier span, script.expression? last = some (.name identifier span)
  | .element object index _ =>
      object.index < script.expressions.size ∧ index.index < script.expressions.size
  | .array elements _ => ∀ node ∈ elements, node.index < script.expressions.size
  | .call callee arguments _ =>
      callee.index < script.expressions.size ∧
        ∀ node ∈ arguments, node.index < script.expressions.size
  | .silent _ => False
  | .scopeNames _ => False

theorem Script.extends_pushExpression (script : Script) (node : Expression) :
    script.Extends (script.pushExpression node).2 where
  expressions index present := by
    simp [Script.pushExpression, Array.getElem?_push, Nat.ne_of_lt present]
  statements _ _ := rfl

theorem Script.extends_pushStatement (script : Script) (node : Statement) :
    script.Extends (script.pushStatement node).2 where
  expressions _ _ := rfl
  statements index present := by
    simp [Script.pushStatement, Array.getElem?_push, Nat.ne_of_lt present]

/-- A node whose children are present spells a tree when it is pushed. -/
theorem Script.Planted.exists_at_pushExpression {script : Script} (planted : script.Planted)
    {node : Expression} (rooted : node.Rooted script) :
    ∃ tree : ExpressionTree,
      tree.At (script.pushExpression node).2 (script.pushExpression node).1 := by
  have grown := (script.extends_pushExpression node).expressions
  have found := script.expression?_pushExpression node
  have child : ∀ inner : ExpressionRef, inner.index < script.expressions.size →
      inner.index < (script.pushExpression node).1.index ∧
        ∃ tree : ExpressionTree, tree.At (script.pushExpression node).2 inner := by
    intro inner present
    obtain ⟨tree, treeAt⟩ := planted inner present
    exact ⟨present, tree, treeAt.grow grown tree⟩
  cases node with
  | constant value span => exact ⟨.constant value span, found⟩
  | name name span => exact ⟨.name name span, found⟩
  | unary operator operand span =>
      obtain ⟨before, tree, treeAt⟩ := child operand (by simpa only [Expression.Rooted] using rooted)
      exact ⟨.unary operator tree span, operand, found, before, treeAt⟩
  | binary operator left right span =>
      obtain ⟨leftBefore, leftTree, leftAt⟩ := child left rooted.1
      obtain ⟨rightBefore, rightTree, rightAt⟩ := child right rooted.2
      exact ⟨.binary operator leftTree rightTree span, left, right, found,
        ⟨leftBefore, leftAt⟩, rightBefore, rightAt⟩
  | shortCircuit operator left right span =>
      obtain ⟨leftBefore, leftTree, leftAt⟩ := child left rooted.1
      obtain ⟨rightBefore, rightTree, rightAt⟩ := child right rooted.2
      exact ⟨.shortCircuit operator leftTree rightTree span, left, right, found,
        ⟨leftBefore, leftAt⟩, rightBefore, rightAt⟩
  | member object member span =>
      obtain ⟨objectPresent, name, nameSpan, memberFound⟩ := rooted
      obtain ⟨objectBefore, objectTree, objectAt⟩ := child object objectPresent
      have memberBefore := (Array.getElem?_eq_some_iff.mp memberFound).choose
      exact ⟨.member objectTree name nameSpan span, object, member, found,
        ⟨objectBefore, objectAt⟩, memberBefore, grown.expression? memberFound⟩
  | element object index span =>
      obtain ⟨objectBefore, objectTree, objectAt⟩ := child object rooted.1
      obtain ⟨indexBefore, indexTree, indexAt⟩ := child index rooted.2
      exact ⟨.element objectTree indexTree span, object, index, found,
        ⟨objectBefore, objectAt⟩, indexBefore, indexAt⟩
  | array elements span =>
      obtain ⟨trees, elementsAt⟩ := planted.all (by simpa only [Expression.Rooted] using rooted)
      exact ⟨.array trees span, elements, found, elementsAt.grow grown trees⟩
  | call callee arguments span =>
      obtain ⟨calleeBefore, calleeTree, calleeAt⟩ := child callee rooted.1
      obtain ⟨trees, argumentsAt⟩ := planted.all rooted.2
      exact ⟨.call calleeTree trees span, callee, arguments, found,
        ⟨calleeBefore, calleeAt⟩, argumentsAt.grow grown trees⟩
  | silent => exact rooted.elim
  | scopeNames => exact rooted.elim

/-- Pushing a node whose children are present leaves every node with a tree. -/
theorem Script.Planted.pushExpression {script : Script} (planted : script.Planted)
    {node : Expression} (rooted : node.Rooted script) :
    (script.pushExpression node).2.Planted := by
  intro other present
  by_cases old : other.index < script.expressions.size
  · obtain ⟨tree, treeAt⟩ := planted other old
    exact ⟨tree, treeAt.grow (script.extends_pushExpression node).expressions tree⟩
  · have last : other = (script.pushExpression node).1 := by
      obtain ⟨index⟩ := other
      simp only [Script.pushExpression, Array.size_push, ExpressionRef.mk.injEq] at present old ⊢
      omega
    rw [last]
    exact planted.exists_at_pushExpression rooted

/-- Trees only look at expressions, so a script with the same ones has the same trees. -/
theorem Script.Planted.of_expressions_eq {old new : Script} (planted : old.Planted)
    (same : new.expressions = old.expressions) : new.Planted := by
  have kept : old.KeepsExpressions new := fun index _ => by rw [same]
  intro node present
  obtain ⟨tree, treeAt⟩ := planted node (same ▸ present)
  exact ⟨tree, treeAt.grow kept tree⟩

/-!
## Blocks in a grown script
-/

private theorem statement?_of_slot {old new : Script} {this : StatementRef}
    (same : new.statements[this.index]? = old.statements[this.index]?) :
    new.statement? this = old.statement? this := by
  simp only [Script.statement?, same]

private theorem next_of_slot {old new : Script} {this : StatementRef}
    (same : new.statements[this.index]? = old.statements[this.index]?) :
    new.next this = old.next this := by
  simp only [Script.next, same]

mutual

/-- A statement is still laid out where its own node and the slots of its bodies
are as before. What follows it does not matter. -/
theorem StatementTree.Laid.keep {old new : Script} (kept : old.KeepsExpressions new)
    (tree : StatementTree) {start : Nat} {this : StatementRef} (laid : tree.Laid old start this)
    (slots : ∀ index, start ≤ index → index < this.index →
      new.statements[index]? = old.statements[index]?)
    (same : new.statement? this = old.statement? this) : tree.Laid new start this := by
  cases tree with
  | expression expression =>
      obtain ⟨node, found, spelled, own⟩ := laid
      exact ⟨node, same.trans found, spelled.grow kept expression, own⟩
  | print values =>
      obtain ⟨nodes, found, spelled, own⟩ := laid
      exact ⟨nodes, same.trans found, (spelled.grow kept values).mono kept.le, own⟩
  | assignName name operator value span =>
      obtain ⟨node, found, spelled, own⟩ := laid
      exact ⟨node, same.trans found, spelled.grow kept value, own⟩
  | assignMember object name operator value span =>
      obtain ⟨target, node, found, objectAt, valueAt, own⟩ := laid
      exact ⟨target, node, same.trans found, objectAt.grow kept object,
        valueAt.grow kept value, own⟩
  | assignElement object index operator value span =>
      obtain ⟨target, position, node, found, objectAt, indexAt, valueAt, own⟩ := laid
      exact ⟨target, position, node, same.trans found, objectAt.grow kept object,
        indexAt.grow kept index, valueAt.grow kept value, own⟩
  | branch branches =>
      obtain ⟨bodies, otherwise, found, branchesLaid⟩ := laid
      exact ⟨bodies, otherwise, same.trans found, branchesLaid.keep kept branches slots⟩
  | whileLoop condition body =>
      obtain ⟨node, head, found, conditionAt, bodyLaid⟩ := laid
      exact ⟨node, head, same.trans found, conditionAt.grow kept condition,
        BlockLaid.keep kept body bodyLaid slots⟩
  | forLoop item iterable body span =>
      obtain ⟨node, head, found, iterableAt, bodyLaid⟩ := laid
      exact ⟨node, head, same.trans found, iterableAt.grow kept iterable,
        BlockLaid.keep kept body bodyLaid slots⟩
  | breakLoops | continueLoop | pass | delete => exact ⟨same.trans laid.1, laid.2⟩
  | returnValue value =>
      cases value with
      | none => exact ⟨same.trans laid.1, laid.2⟩
      | some value =>
          obtain ⟨node, found, spelled, own⟩ := laid
          exact ⟨node, same.trans found, spelled.grow kept value, own⟩
  | define name parameters entry body =>
      exact ⟨same.trans laid.1, BlockLaid.keep kept body laid.2 slots⟩
  | record name body span =>
      obtain ⟨head, found, bodyLaid⟩ := laid
      exact ⟨head, same.trans found, BlockLaid.keep kept body bodyLaid slots⟩

/-- Branches are still laid out where the slots of their bodies are as before. -/
theorem BranchTree.Laid.keep {old new : Script} (kept : old.KeepsExpressions new)
    (tree : BranchTree) {branches : List (ExpressionRef × Option StatementRef)}
    {otherwise : Option (Option StatementRef)} {start stop : Nat}
    (laid : tree.Laid old branches otherwise start stop)
    (slots : ∀ index, start ≤ index → index < stop →
      new.statements[index]? = old.statements[index]?) :
    tree.Laid new branches otherwise start stop := by
  cases tree with
  | missing => exact laid
  | otherwise body =>
      obtain ⟨head, none, some, bodyLaid⟩ := laid
      exact ⟨head, none, some, BlockLaid.keep kept body bodyLaid slots⟩
  | test condition body rest =>
      obtain ⟨node, head, more, middle, first, conditionAt, bodyLaid, restLaid⟩ := laid
      have bodyLe := BlockLaid.le body bodyLaid
      have restLe := restLaid.le rest
      exact ⟨node, head, more, middle, first, conditionAt.grow kept condition,
        BlockLaid.keep kept body bodyLaid fun index lower upper => slots index lower (by omega),
        restLaid.keep kept rest fun index lower upper => slots index (by omega) upper⟩

theorem BlockLaid.keep {old new : Script} (kept : old.KeepsExpressions new)
    (block : List StatementTree) {head : Option StatementRef} {start stop : Nat}
    (laid : BlockLaid old block head start stop)
    (slots : ∀ index, start ≤ index → index < stop →
      new.statements[index]? = old.statements[index]?) :
    BlockLaid new block head start stop := by
  cases block with
  | nil => exact laid
  | cons tree rest =>
      obtain ⟨this, first, treeLaid, restLaid⟩ := laid
      have treeLe := treeLaid.le tree
      have restLe := BlockLaid.le rest restLaid
      have own := slots this.index treeLe (by omega)
      refine ⟨this, first, ?_, ?_⟩
      · exact treeLaid.keep kept tree (fun index lower upper => slots index lower (by omega))
          (statement?_of_slot own)
      · rw [next_of_slot own]
        exact BlockLaid.keep kept rest restLaid
          fun index lower upper => slots index (by omega) upper

end

/-!
## Rows of statements that are not chained yet
-/

/-- The statements of a row, each with its bodies before it and with nothing that
follows it yet, fill the slots from `start` up to `stop`. -/
def RowLaid (script : Script) :
    List StatementTree → List StatementRef → Nat → Nat → Prop
  | [], [], start, stop => start = stop
  | tree :: trees, this :: row, start, stop =>
      (tree.Laid script start this ∧ script.next this = none) ∧
        RowLaid script trees row (this.index + 1) stop
  | _, _, _, _ => False

theorem RowLaid.le {script : Script} {trees : List StatementTree} {row : List StatementRef}
    {start stop : Nat} (laid : RowLaid script trees row start stop) : start ≤ stop := by
  induction trees generalizing row start with
  | nil =>
      cases row with
      | nil => exact Nat.le_of_eq laid
      | cons => exact laid.elim
  | cons tree trees ih =>
      cases row with
      | nil => exact laid.elim
      | cons this row =>
          obtain ⟨⟨treeLaid, _⟩, restLaid⟩ := laid
          have first := treeLaid.le tree
          have second := ih restLaid
          omega

theorem RowLaid.keep {old new : Script} (kept : old.KeepsExpressions new)
    {trees : List StatementTree} {row : List StatementRef} {start stop : Nat}
    (laid : RowLaid old trees row start stop)
    (slots : ∀ index, start ≤ index → index < stop →
      new.statements[index]? = old.statements[index]?) :
    RowLaid new trees row start stop := by
  induction trees generalizing row start with
  | nil => cases row <;> exact laid
  | cons tree trees ih =>
      cases row with
      | nil => exact laid
      | cons this row =>
          obtain ⟨⟨treeLaid, alone⟩, restLaid⟩ := laid
          have treeLe := treeLaid.le tree
          have restLe := restLaid.le
          have own := slots this.index treeLe (by omega)
          refine ⟨⟨?_, (next_of_slot own).trans alone⟩, ?_⟩
          · exact treeLaid.keep kept tree (fun index lower upper => slots index lower (by omega))
              (statement?_of_slot own)
          · exact ih restLaid fun index lower upper => slots index (by omega) upper

/-- A statement at the end of the old script comes in front of a row that is added. -/
theorem RowLaid.cons {old new : Script} (grown : old.Extends new) {tree : StatementTree}
    {start : Nat} {this : StatementRef} (treeLaid : tree.Laid old start this)
    (alone : old.next this = none) (last : this.index + 1 = old.statements.size)
    {trees : List StatementTree} {row : List StatementRef} {stop : Nat}
    (laid : RowLaid new trees row old.statements.size stop) :
    RowLaid new (tree :: trees) (this :: row) start stop := by
  have slots (index : Nat) (upper : index < this.index + 1) :
      new.statements[index]? = old.statements[index]? :=
    grown.statements index (by omega)
  have own := slots this.index (by omega)
  refine ⟨⟨?_, (next_of_slot own).trans alone⟩, last ▸ laid⟩
  exact treeLaid.keep grown.expressions tree (fun index _ upper => slots index (by omega))
    (statement?_of_slot own)

namespace Script

theorem setNext_slot (script : Script) (this following : StatementRef) (index : Nat)
    (other : index ≠ this.index) :
    (script.setNext this following).statements[index]? = script.statements[index]? := by
  simp [setNext, Array.getElem?_modify, Ne.symm other]

theorem link_expressions (script : Script) (row : List StatementRef) :
    (script.link row).expressions = script.expressions := by
  fun_induction Script.link script row with
  | case1 script this following rest ih => simpa [setNext] using ih
  | case2 => rfl

theorem link_size (script : Script) (row : List StatementRef) :
    (script.link row).statements.size = script.statements.size := by
  fun_induction Script.link script row with
  | case1 script this following rest ih => simpa [setNext] using ih
  | case2 => rfl

end Script

/-- Linking a row makes a block of it and leaves all other slots as they are. -/
theorem RowLaid.link {script : Script} {trees : List StatementTree} {row : List StatementRef}
    {start stop : Nat} (laid : RowLaid script trees row start stop)
    (inside : stop ≤ script.statements.size) :
    BlockLaid (script.link row) trees row.head? start stop ∧
      ∀ index, index < start ∨ stop ≤ index →
        (script.link row).statements[index]? = script.statements[index]? := by
  fun_induction Script.link script row generalizing trees start with
  | case1 script this following rest ih =>
      cases trees with
      | nil => exact laid.elim
      | cons tree trees =>
          obtain ⟨⟨treeLaid, alone⟩, restLaid⟩ := laid
          have treeLe := treeLaid.le tree
          have restLe := restLaid.le
          have linkedLaid : RowLaid (script.setNext this following) trees (following :: rest)
              (this.index + 1) stop := by
            have kept : script.KeepsExpressions (script.setNext this following) := fun _ _ => rfl
            exact restLaid.keep kept fun index lower upper =>
              script.setNext_slot this following index (by omega)
          obtain ⟨blockLaid, outside⟩ := ih linkedLaid (by simpa [Script.setNext] using inside)
          have own := outside this.index (.inl (by omega))
          have chained : ((script.setNext this following).link (following :: rest)).next this =
              some following := by
            rw [next_of_slot own, script.next_setNext this following this (by omega)]
            simp
          constructor
          · refine ⟨this, rfl, ?_, ?_⟩
            · refine treeLaid.keep (fun index _ => ?_) tree (fun index lower upper => ?_) ?_
              · rw [Script.link_expressions]; rfl
              · rw [outside index (.inl (by omega))]
                exact script.setNext_slot this following index (by omega)
              · rw [statement?_of_slot own, Script.statement?_setNext]
            · rw [chained]
              exact blockLaid
          · intro index apart
            rw [outside index (by omega)]
            exact script.setNext_slot this following index (by omega)
  | case2 row script short =>
      refine ⟨?_, fun _ _ => rfl⟩
      cases trees with
      | nil =>
          cases row with
          | nil => exact ⟨rfl, laid⟩
          | cons => exact laid.elim
      | cons tree trees =>
          cases row with
          | nil => exact laid.elim
          | cons this rest =>
              obtain ⟨⟨treeLaid, alone⟩, restLaid⟩ := laid
              cases rest with
              | cons following rest => exact (short this following rest rfl).elim
              | nil =>
                  cases trees with
                  | nil => exact ⟨this, rfl, treeLaid, alone, restLaid⟩
                  | cons => exact restLaid.elim

/-- A row that fills the script up to its last slot is the block that the script begins
with when it is linked. -/
theorem RowLaid.finish {script : Script} {trees : List StatementTree} {row : List StatementRef}
    {start : Nat} (laid : RowLaid script trees row start script.statements.size) :
    BlockLaid { script.link row with first := row.head? } trees row.head? start
      (script.link row).statements.size := by
  obtain ⟨blockLaid, _⟩ := laid.link (Nat.le_refl _)
  rw [Script.link_size]
  have kept : (script.link row).KeepsExpressions
      { script.link row with first := row.head? } := fun _ _ => rfl
  exact blockLaid.keep kept trees fun _ _ _ => rfl

end ScriptEngine
