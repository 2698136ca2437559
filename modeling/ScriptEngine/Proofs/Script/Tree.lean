import ScriptEngine.Script.Basic

/-!
# Scripts as trees

What an arena of nodes spells: expressions and statements as trees. A tree stands
at a node when the node and everything below it are found in the arena, operands
before the nodes that use them. A block is laid out in a stretch of statement
slots when it fills the stretch exactly, every compound behind its bodies.

`Script.block?` reads the tree of a block off the arena; it finds every block
that is laid out (`block?_of_laid`).
-/

set_option autoImplicit false

namespace ScriptEngine

/-- An expression with everything below it. A member access keeps the place of
the member's name beside its own. -/
inductive ExpressionTree where
  | constant (value : Value) (span : Span)
  | name (name : String) (span : Span)
  | unary (operator : UnaryOperator) (operand : ExpressionTree) (span : Span)
  | binary (operator : BinaryOperator) (left right : ExpressionTree) (span : Span)
  | shortCircuit (operator : LogicalOperator) (left right : ExpressionTree) (span : Span)
  | member (object : ExpressionTree) (name : String) (nameSpan span : Span)
  | element (object index : ExpressionTree) (span : Span)
  | array (elements : List ExpressionTree) (span : Span)
  | call (callee : ExpressionTree) (arguments : List ExpressionTree) (span : Span)

mutual

/-- A statement with everything below it. A function definition also keeps where
its body begins in the arena, since that is what the function refers to. -/
inductive StatementTree where
  | expression (expression : ExpressionTree)
  | print (values : List ExpressionTree)
  | assignName (name : String) (operator : AssignOperator) (value : ExpressionTree) (span : Span)
  | assignMember (object : ExpressionTree) (name : String) (operator : AssignOperator)
      (value : ExpressionTree) (span : Span)
  | assignElement (object index : ExpressionTree) (operator : AssignOperator)
      (value : ExpressionTree) (span : Span)
  | branch (branches : BranchTree)
  | whileLoop (condition : ExpressionTree) (body : List StatementTree)
  | forLoop (item : String) (iterable : ExpressionTree) (body : List StatementTree) (span : Span)
  | breakLoops (count : Nat) (span : Span)
  | continueLoop (span : Span)
  | returnValue (value : Option ExpressionTree)
  | pass
  | delete (name : String) (span : Span)
  | define (name : String) (parameters : List String) (entry : Option StatementRef)
      (body : List StatementTree)
  | record (name : String) (body : List StatementTree) (span : Span)

/-- The branches of a conditional statement that are left to be tried. -/
inductive BranchTree where
  | missing
  | otherwise (body : List StatementTree)
  | test (condition : ExpressionTree) (body : List StatementTree) (rest : BranchTree)

end

/-!
## Trees that stand in an arena
-/

mutual

/-- The tree is what a node spells. Every operand stands before its node. -/
def ExpressionTree.At (script : Script) : ExpressionTree → ExpressionRef → Prop
  | .constant value span, node => script.expression? node = some (.constant value span)
  | .name identifier span, node => script.expression? node = some (.name identifier span)
  | .unary operator operand span, node =>
      ∃ inner, script.expression? node = some (.unary operator inner span) ∧
        inner.index < node.index ∧ operand.At script inner
  | .binary operator left right span, node =>
      ∃ first second, script.expression? node = some (.binary operator first second span) ∧
        (first.index < node.index ∧ left.At script first) ∧
        (second.index < node.index ∧ right.At script second)
  | .shortCircuit operator left right span, node =>
      ∃ first second, script.expression? node = some (.shortCircuit operator first second span) ∧
        (first.index < node.index ∧ left.At script first) ∧
        (second.index < node.index ∧ right.At script second)
  | .member object identifier nameSpan span, node =>
      ∃ inner last, script.expression? node = some (.member inner last span) ∧
        (inner.index < node.index ∧ object.At script inner) ∧
        (last.index < node.index ∧ script.expression? last = some (.name identifier nameSpan))
  | .element object position span, node =>
      ∃ first second, script.expression? node = some (.element first second span) ∧
        (first.index < node.index ∧ object.At script first) ∧
        (second.index < node.index ∧ position.At script second)
  | .array elements span, node =>
      ∃ items, script.expression? node = some (.array items span) ∧
        AllAt script elements items node.index
  | .call callee arguments span, node =>
      ∃ first items, script.expression? node = some (.call first items span) ∧
        (first.index < node.index ∧ callee.At script first) ∧
        AllAt script arguments items node.index

/-- The trees are what the nodes of a list spell, all of them before `bound`. -/
def ExpressionTree.AllAt (script : Script) :
    List ExpressionTree → List ExpressionRef → Nat → Prop
  | [], [], _ => True
  | tree :: trees, node :: nodes, bound =>
      (node.index < bound ∧ tree.At script node) ∧ AllAt script trees nodes bound
  | _, _, _ => False

end

mutual

/-- The statement is what the slot of `this` spells, and the bodies below it fill
the slots from `start` up to that one. -/
def StatementTree.Laid (script : Script) : StatementTree → Nat → StatementRef → Prop
  | .expression expression, start, this =>
      ∃ node, script.statement? this = some (.expression node) ∧
        expression.At script node ∧ start = this.index
  | .print values, start, this =>
      ∃ nodes, script.statement? this = some (.print nodes) ∧
        ExpressionTree.AllAt script values nodes script.expressions.size ∧ start = this.index
  | .assignName name operator value span, start, this =>
      ∃ node, script.statement? this = some (.assign (.name name) operator node span) ∧
        value.At script node ∧ start = this.index
  | .assignMember object name operator value span, start, this =>
      ∃ target node,
        script.statement? this = some (.assign (.member target name) operator node span) ∧
        object.At script target ∧ value.At script node ∧ start = this.index
  | .assignElement object index operator value span, start, this =>
      ∃ target position node,
        script.statement? this = some (.assign (.element target position) operator node span) ∧
        object.At script target ∧ index.At script position ∧ value.At script node ∧
        start = this.index
  | .branch branches, start, this =>
      ∃ bodies otherwise, script.statement? this = some (.branch bodies otherwise) ∧
        branches.Laid script bodies otherwise start this.index
  | .whileLoop condition body, start, this =>
      ∃ node head, script.statement? this = some (.whileLoop node head) ∧
        condition.At script node ∧ BlockLaid script body head start this.index
  | .forLoop item iterable body span, start, this =>
      ∃ node head, script.statement? this = some (.forLoop item node head span) ∧
        iterable.At script node ∧ BlockLaid script body head start this.index
  | .breakLoops count span, start, this =>
      script.statement? this = some (.breakLoops count span) ∧ start = this.index
  | .continueLoop span, start, this =>
      script.statement? this = some (.continueLoop span) ∧ start = this.index
  | .returnValue none, start, this =>
      script.statement? this = some (.returnValue none) ∧ start = this.index
  | .returnValue (some value), start, this =>
      ∃ node, script.statement? this = some (.returnValue (some node)) ∧
        value.At script node ∧ start = this.index
  | .pass, start, this => script.statement? this = some .pass ∧ start = this.index
  | .delete name span, start, this =>
      script.statement? this = some (.delete name span) ∧ start = this.index
  | .define name parameters entry body, start, this =>
      script.statement? this = some (.define name parameters entry) ∧
        BlockLaid script body entry start this.index
  | .record name body span, start, this =>
      ∃ head, script.statement? this = some (.record name head span) ∧
        BlockLaid script body head start this.index

/-- The branches are what the lists of a conditional spell, and their bodies fill
the slots from `start` up to `stop`. -/
def BranchTree.Laid (script : Script) : BranchTree →
    List (ExpressionRef × Option StatementRef) → Option (Option StatementRef) → Nat → Nat → Prop
  | .missing, branches, otherwise, start, stop =>
      branches = [] ∧ otherwise = none ∧ start = stop
  | .otherwise body, branches, otherwise, start, stop =>
      ∃ head, branches = [] ∧ otherwise = some head ∧ BlockLaid script body head start stop
  | .test condition body rest, branches, otherwise, start, stop =>
      ∃ node head more middle, branches = (node, head) :: more ∧ condition.At script node ∧
        BlockLaid script body head start middle ∧ rest.Laid script more otherwise middle stop

/-- The block is what the chain of links from `head` spells, and it fills the
slots from `start` up to `stop`. -/
def BlockLaid (script : Script) :
    List StatementTree → Option StatementRef → Nat → Nat → Prop
  | [], head, start, stop => head = none ∧ start = stop
  | tree :: rest, head, start, stop =>
      ∃ this, head = some this ∧ tree.Laid script start this ∧
        BlockLaid script rest (script.next this) (this.index + 1) stop

end

/-!
## Reading trees off an arena
-/

namespace Script

/-- The tree of a node, if it is spelled within `depth` levels. Nodes that no
source spells have none. -/
def expressionTreeWithin (script : Script) : Nat → ExpressionRef → Option ExpressionTree
  | 0, _ => none
  | depth + 1, node => do
      match ← script.expression? node with
      | .constant value span => return .constant value span
      | .name name span => return .name name span
      | .unary operator operand span =>
          return .unary operator (← script.expressionTreeWithin depth operand) span
      | .binary operator left right span =>
          return .binary operator (← script.expressionTreeWithin depth left)
            (← script.expressionTreeWithin depth right) span
      | .shortCircuit operator left right span =>
          return .shortCircuit operator (← script.expressionTreeWithin depth left)
            (← script.expressionTreeWithin depth right) span
      | .member object member span =>
          match ← script.expression? member with
          | .name name nameSpan =>
              return .member (← script.expressionTreeWithin depth object) name nameSpan span
          | _ => none
      | .element object index span =>
          return .element (← script.expressionTreeWithin depth object)
            (← script.expressionTreeWithin depth index) span
      | .array elements span =>
          return .array (← elements.mapM (script.expressionTreeWithin depth)) span
      | .call callee arguments span =>
          return .call (← script.expressionTreeWithin depth callee)
            (← arguments.mapM (script.expressionTreeWithin depth)) span
      | .silent _ => none
      | .scopeNames _ => none

/-- The tree of a node. No path from a node to its operands is longer than the
script. -/
def expressionTree? (script : Script) (node : ExpressionRef) : Option ExpressionTree :=
  script.expressionTreeWithin script.expressions.size node

/-- The tree of branches, given how a body is read. -/
def branchTree? (script : Script) (body? : Option StatementRef → Option (List StatementTree))
    (otherwise : Option (Option StatementRef)) :
    List (ExpressionRef × Option StatementRef) → Option BranchTree
  | [] =>
      match otherwise with
      | none => return .missing
      | some head => return .otherwise (← body? head)
  | (condition, head) :: rest => do
      return .test (← script.expressionTree? condition) (← body? head)
        (← script.branchTree? body? otherwise rest)

/-- The tree of a statement, given how a body is read. -/
def statementTree? (script : Script) (body? : Option StatementRef → Option (List StatementTree)) :
    Statement → Option StatementTree
  | .expression expression => return .expression (← script.expressionTree? expression)
  | .print values => return .print (← values.mapM script.expressionTree?)
  | .assign (.name name) operator value span =>
      return .assignName name operator (← script.expressionTree? value) span
  | .assign (.member object name) operator value span =>
      return .assignMember (← script.expressionTree? object) name operator
        (← script.expressionTree? value) span
  | .assign (.element object index) operator value span =>
      return .assignElement (← script.expressionTree? object) (← script.expressionTree? index)
        operator (← script.expressionTree? value) span
  | .branch branches otherwise =>
      return .branch (← script.branchTree? body? otherwise branches)
  | .whileLoop condition head =>
      return .whileLoop (← script.expressionTree? condition) (← body? head)
  | .forLoop item iterable head span =>
      return .forLoop item (← script.expressionTree? iterable) (← body? head) span
  | .breakLoops count span => return .breakLoops count span
  | .continueLoop span => return .continueLoop span
  | .returnValue none => return .returnValue none
  | .returnValue (some value) => return .returnValue (some (← script.expressionTree? value))
  | .pass => return .pass
  | .delete name span => return .delete name span
  | .define name parameters head => return .define name parameters head (← body? head)
  | .record name head span => return .record name (← body? head) span

/-- The block that begins at `head`, if no path into it is longer than `depth`. -/
def blockWithin (script : Script) : Nat → Option StatementRef → Option (List StatementTree)
  | _, none => return []
  | 0, some _ => none
  | depth + 1, some this => do
      let tree ← script.statementTree? (script.blockWithin depth) (← script.statement? this)
      let rest ← script.blockWithin depth (script.next this)
      return tree :: rest

/-- The block that begins at `head`. No path into a block is longer than the
script. -/
def block? (script : Script) (head : Option StatementRef) : Option (List StatementTree) :=
  script.blockWithin script.statements.size head

/-- The whole script as a block. -/
def tree? (script : Script) : Option (List StatementTree) :=
  script.block? script.first

end Script

/-!
## What is laid out is read
-/

mutual

theorem Script.expressionTreeWithin_of_at {script : Script} (tree : ExpressionTree) (depth : Nat)
    {node : ExpressionRef} (spelled : tree.At script node) (within : node.index < depth) :
    script.expressionTreeWithin depth node = some tree := by
  obtain ⟨depth, rfl⟩ := Nat.exists_eq_succ_of_ne_zero (Nat.ne_zero_of_lt within)
  cases tree with
  | constant value span =>
      simp only [ExpressionTree.At] at spelled
      simp [Script.expressionTreeWithin, spelled]
  | name identifier span =>
      simp only [ExpressionTree.At] at spelled
      simp [Script.expressionTreeWithin, spelled]
  | unary operator operand span =>
      obtain ⟨inner, found, before, operandAt⟩ := spelled
      have operandRead := Script.expressionTreeWithin_of_at operand depth operandAt (by omega)
      simp [Script.expressionTreeWithin, found, operandRead]
  | binary operator left right span =>
      obtain ⟨first, second, found, ⟨leftBefore, leftAt⟩, rightBefore, rightAt⟩ := spelled
      have leftRead := Script.expressionTreeWithin_of_at left depth leftAt (by omega)
      have rightRead := Script.expressionTreeWithin_of_at right depth rightAt (by omega)
      simp [Script.expressionTreeWithin, found, leftRead, rightRead]
  | shortCircuit operator left right span =>
      obtain ⟨first, second, found, ⟨leftBefore, leftAt⟩, rightBefore, rightAt⟩ := spelled
      have leftRead := Script.expressionTreeWithin_of_at left depth leftAt (by omega)
      have rightRead := Script.expressionTreeWithin_of_at right depth rightAt (by omega)
      simp [Script.expressionTreeWithin, found, leftRead, rightRead]
  | member object identifier nameSpan span =>
      obtain ⟨inner, last, found, ⟨objectBefore, objectAt⟩, _, lastFound⟩ := spelled
      have objectRead := Script.expressionTreeWithin_of_at object depth objectAt (by omega)
      simp [Script.expressionTreeWithin, found, lastFound, objectRead]
  | element object position span =>
      obtain ⟨first, second, found, ⟨objectBefore, objectAt⟩, positionBefore, positionAt⟩ := spelled
      have objectRead := Script.expressionTreeWithin_of_at object depth objectAt (by omega)
      have positionRead := Script.expressionTreeWithin_of_at position depth positionAt (by omega)
      simp [Script.expressionTreeWithin, found, objectRead, positionRead]
  | array elements span =>
      obtain ⟨items, found, elementsAt⟩ := spelled
      have elementsRead := Script.mapM_expressionTreeWithin_of_allAt elements depth elementsAt (by omega)
      simp [Script.expressionTreeWithin, found, elementsRead]
  | call callee arguments span =>
      obtain ⟨first, items, found, ⟨calleeBefore, calleeAt⟩, argumentsAt⟩ := spelled
      have calleeRead := Script.expressionTreeWithin_of_at callee depth calleeAt (by omega)
      have argumentsRead := Script.mapM_expressionTreeWithin_of_allAt arguments depth argumentsAt (by omega)
      simp [Script.expressionTreeWithin, found, calleeRead, argumentsRead]

theorem Script.mapM_expressionTreeWithin_of_allAt {script : Script} (trees : List ExpressionTree)
    (depth : Nat) {nodes : List ExpressionRef} {bound : Nat}
    (spelled : ExpressionTree.AllAt script trees nodes bound) (within : bound ≤ depth) :
    nodes.mapM (script.expressionTreeWithin depth) = some trees := by
  cases trees with
  | nil =>
      cases nodes with
      | nil => rfl
      | cons node nodes => exact spelled.elim
  | cons tree trees =>
      cases nodes with
      | nil => exact spelled.elim
      | cons node nodes =>
          obtain ⟨⟨before, treeAt⟩, restAt⟩ := spelled
          have treeRead := Script.expressionTreeWithin_of_at tree depth treeAt (by omega)
          have restRead := Script.mapM_expressionTreeWithin_of_allAt trees depth restAt within
          simp [treeRead, restRead]

end

theorem ExpressionTree.At.found {script : Script} {tree : ExpressionTree} {node : ExpressionRef}
    (spelled : tree.At script node) : ∃ expression, script.expression? node = some expression := by
  cases tree with
  | constant | name => exact ⟨_, spelled⟩
  | unary | array => obtain ⟨_, found, _⟩ := spelled; exact ⟨_, found⟩
  | binary | shortCircuit | member | element | call =>
      obtain ⟨_, _, found, _⟩ := spelled
      exact ⟨_, found⟩

theorem ExpressionTree.At.present {script : Script} {tree : ExpressionTree} {node : ExpressionRef}
    (spelled : tree.At script node) : node.index < script.expressions.size := by
  obtain ⟨expression, found⟩ := spelled.found
  exact (Array.getElem?_eq_some_iff.mp found).choose

/-- Each of several nodes that spell trees stands before their bound. -/
theorem ExpressionTree.AllAt.mem {script : Script} {trees : List ExpressionTree}
    {nodes : List ExpressionRef} {bound : Nat}
    (spelled : ExpressionTree.AllAt script trees nodes bound)
    {node : ExpressionRef} (member : node ∈ nodes) :
    node.index < bound ∧ ∃ tree : ExpressionTree, tree.At script node := by
  induction trees generalizing nodes with
  | nil =>
      cases nodes with
      | nil => cases member
      | cons => exact spelled.elim
  | cons tree trees ih =>
      cases nodes with
      | nil => cases member
      | cons first rest =>
          obtain ⟨⟨before, treeAt⟩, restAt⟩ := spelled
          rcases List.mem_cons.mp member with rfl | member
          · exact ⟨before, tree, treeAt⟩
          · exact ih restAt member

theorem Script.expressionTree?_of_at {script : Script} {tree : ExpressionTree}
    {node : ExpressionRef} (spelled : tree.At script node) :
    script.expressionTree? node = some tree :=
  expressionTreeWithin_of_at tree _ spelled spelled.present

mutual

theorem StatementTree.Laid.le {script : Script} (tree : StatementTree) {start : Nat}
    {this : StatementRef} (laid : tree.Laid script start this) : start ≤ this.index := by
  cases tree with
  | expression | print | assignName => obtain ⟨_, _, _, same⟩ := laid; exact Nat.le_of_eq same
  | assignMember => obtain ⟨_, _, _, _, _, same⟩ := laid; exact Nat.le_of_eq same
  | assignElement => obtain ⟨_, _, _, _, _, _, _, same⟩ := laid; exact Nat.le_of_eq same
  | branch branches => obtain ⟨_, _, _, branchesLaid⟩ := laid; exact branchesLaid.le branches
  | whileLoop condition body | forLoop item iterable body span =>
      obtain ⟨_, _, _, _, bodyLaid⟩ := laid
      exact BlockLaid.le body bodyLaid
  | breakLoops | continueLoop | pass | delete => exact Nat.le_of_eq laid.2
  | returnValue value =>
      cases value with
      | none => exact Nat.le_of_eq laid.2
      | some value => obtain ⟨_, _, _, same⟩ := laid; exact Nat.le_of_eq same
  | define name parameters entry body => exact BlockLaid.le body laid.2
  | record name body span => obtain ⟨_, _, bodyLaid⟩ := laid; exact BlockLaid.le body bodyLaid

theorem BranchTree.Laid.le {script : Script} (tree : BranchTree)
    {branches : List (ExpressionRef × Option StatementRef)}
    {otherwise : Option (Option StatementRef)} {start stop : Nat}
    (laid : tree.Laid script branches otherwise start stop) : start ≤ stop := by
  cases tree with
  | missing => exact Nat.le_of_eq laid.2.2
  | otherwise body => obtain ⟨_, _, _, bodyLaid⟩ := laid; exact BlockLaid.le body bodyLaid
  | test condition body rest =>
      obtain ⟨_, _, _, _, _, _, bodyLaid, restLaid⟩ := laid
      exact Nat.le_trans (BlockLaid.le body bodyLaid) (restLaid.le rest)

theorem BlockLaid.le {script : Script} (block : List StatementTree) {head : Option StatementRef}
    {start stop : Nat} (laid : BlockLaid script block head start stop) : start ≤ stop := by
  cases block with
  | nil => exact Nat.le_of_eq laid.2
  | cons tree rest =>
      obtain ⟨this, _, treeLaid, restLaid⟩ := laid
      have first := treeLaid.le tree
      have second := BlockLaid.le rest restLaid
      omega

end

mutual

theorem Script.statementTree?_of_laid {script : Script} (tree : StatementTree) (depth : Nat)
    {start : Nat} {this : StatementRef} (laid : tree.Laid script start this)
    (within : this.index - start ≤ depth) :
    ∃ node, script.statement? this = some node ∧
      script.statementTree? (script.blockWithin depth) node = some tree := by
  cases tree with
  | expression expression =>
      obtain ⟨node, found, spelled, _⟩ := laid
      exact ⟨_, found, by simp [Script.statementTree?, Script.expressionTree?_of_at spelled]⟩
  | print values =>
      obtain ⟨nodes, found, spelled, _⟩ := laid
      have valuesRead : nodes.mapM script.expressionTree? = some values :=
        Script.mapM_expressionTreeWithin_of_allAt values _ spelled (Nat.le_refl _)
      exact ⟨_, found, by simp [Script.statementTree?, valuesRead]⟩
  | assignName name operator value span =>
      obtain ⟨node, found, spelled, _⟩ := laid
      exact ⟨_, found, by simp [Script.statementTree?, Script.expressionTree?_of_at spelled]⟩
  | assignMember object name operator value span =>
      obtain ⟨target, node, found, objectAt, valueAt, _⟩ := laid
      exact ⟨_, found, by
        simp [Script.statementTree?, Script.expressionTree?_of_at objectAt,
          Script.expressionTree?_of_at valueAt]⟩
  | assignElement object index operator value span =>
      obtain ⟨target, position, node, found, objectAt, indexAt, valueAt, _⟩ := laid
      exact ⟨_, found, by
        simp [Script.statementTree?, Script.expressionTree?_of_at objectAt,
          Script.expressionTree?_of_at indexAt, Script.expressionTree?_of_at valueAt]⟩
  | branch branches =>
      obtain ⟨bodies, otherwise, found, branchesLaid⟩ := laid
      have branchesRead := Script.branchTree?_of_laid branches depth branchesLaid within
      exact ⟨_, found, by simp [Script.statementTree?, branchesRead]⟩
  | whileLoop condition body =>
      obtain ⟨node, head, found, conditionAt, bodyLaid⟩ := laid
      have bodyRead := Script.blockWithin_of_laid body depth bodyLaid within
      exact ⟨_, found, by
        simp [Script.statementTree?, Script.expressionTree?_of_at conditionAt, bodyRead]⟩
  | forLoop item iterable body span =>
      obtain ⟨node, head, found, iterableAt, bodyLaid⟩ := laid
      have bodyRead := Script.blockWithin_of_laid body depth bodyLaid within
      exact ⟨_, found, by
        simp [Script.statementTree?, Script.expressionTree?_of_at iterableAt, bodyRead]⟩
  | breakLoops count span => exact ⟨_, laid.1, by simp [Script.statementTree?]⟩
  | continueLoop span => exact ⟨_, laid.1, by simp [Script.statementTree?]⟩
  | returnValue value =>
      cases value with
      | none => exact ⟨_, laid.1, by simp [Script.statementTree?]⟩
      | some value =>
          obtain ⟨node, found, spelled, _⟩ := laid
          exact ⟨_, found, by simp [Script.statementTree?, Script.expressionTree?_of_at spelled]⟩
  | pass => exact ⟨_, laid.1, by simp [Script.statementTree?]⟩
  | delete name span => exact ⟨_, laid.1, by simp [Script.statementTree?]⟩
  | define name parameters entry body =>
      have bodyRead := Script.blockWithin_of_laid body depth laid.2 within
      exact ⟨_, laid.1, by simp [Script.statementTree?, bodyRead]⟩
  | record name body span =>
      obtain ⟨head, found, bodyLaid⟩ := laid
      have bodyRead := Script.blockWithin_of_laid body depth bodyLaid within
      exact ⟨_, found, by simp [Script.statementTree?, bodyRead]⟩

theorem Script.branchTree?_of_laid {script : Script} (tree : BranchTree) (depth : Nat)
    {branches : List (ExpressionRef × Option StatementRef)}
    {otherwise : Option (Option StatementRef)} {start stop : Nat}
    (laid : tree.Laid script branches otherwise start stop) (within : stop - start ≤ depth) :
    script.branchTree? (script.blockWithin depth) otherwise branches = some tree := by
  cases tree with
  | missing =>
      obtain ⟨rfl, rfl, _⟩ := laid
      simp [Script.branchTree?]
  | otherwise body =>
      obtain ⟨head, rfl, rfl, bodyLaid⟩ := laid
      simp [Script.branchTree?, Script.blockWithin_of_laid body depth bodyLaid within]
  | test condition body rest =>
      obtain ⟨node, head, more, middle, rfl, conditionAt, bodyLaid, restLaid⟩ := laid
      have first := BlockLaid.le body bodyLaid
      have second := restLaid.le rest
      have bodyRead := Script.blockWithin_of_laid body depth bodyLaid (by omega)
      have restRead := Script.branchTree?_of_laid rest depth restLaid (by omega)
      simp [Script.branchTree?, Script.expressionTree?_of_at conditionAt, bodyRead, restRead]

theorem Script.blockWithin_of_laid {script : Script} (block : List StatementTree) (depth : Nat)
    {head : Option StatementRef} {start stop : Nat}
    (laid : BlockLaid script block head start stop) (within : stop - start ≤ depth) :
    script.blockWithin depth head = some block := by
  cases block with
  | nil =>
      obtain ⟨rfl, _⟩ := laid
      simp [Script.blockWithin]
  | cons tree rest =>
      obtain ⟨this, rfl, treeLaid, restLaid⟩ := laid
      have first := treeLaid.le tree
      have second := BlockLaid.le rest restLaid
      obtain ⟨depth, rfl⟩ : ∃ below, depth = below + 1 := ⟨depth - 1, by omega⟩
      obtain ⟨node, found, treeRead⟩ :=
        Script.statementTree?_of_laid tree depth treeLaid (by omega)
      have restRead := Script.blockWithin_of_laid rest depth restLaid (by omega)
      simp [Script.blockWithin, found, treeRead, restRead]

end

/-- The block that is laid out in some slots of a script is the one that is read
from its head. -/
theorem Script.block?_of_laid {script : Script} {block : List StatementTree}
    {head : Option StatementRef} {start stop : Nat} (laid : BlockLaid script block head start stop)
    (inside : stop ≤ script.statements.size) : script.block? head = some block :=
  blockWithin_of_laid block _ laid (by omega)

end ScriptEngine
