import ScriptEngine.Proofs.Grammar.Growth
import ScriptEngine.Proofs.Script.Marks
import ScriptEngine.Proofs.Script.Pushed
import ScriptEngine.Proofs.Token.Tiling

/-!
# Accounts of the tokens that are taken

A production that gives a result takes some tokens, and a traversal of what it builds meets
exactly the listed ones of them, in their order. Here this is shown for everything up to
expressions (`Parse.spellsExpressions`).

Taking a token means something only if the end of the source is the last item: it is the
one token that is never taken. So the accounts are kept for such items.
-/

set_option autoImplicit false

namespace ScriptEngine

/-!
## The end of the source
-/

/-- The end of the source is the last item, and no other item is. -/
inductive LexicalItem.Closed : List LexicalItem → Prop where
  | last {token : Token} (ends : token.kind = .endOfSource) : LexicalItem.Closed [.ok token]
  | item {item : LexicalItem} {rest : List LexicalItem}
      (inner : ∀ token, item = .ok token → token.kind ≠ .endOfSource)
      (closed : LexicalItem.Closed rest) : LexicalItem.Closed (item :: rest)

theorem LexicalItem.closed_scanFrom (nesting offset skipped : Nat) (characters : List Char) :
    LexicalItem.Closed (LexicalItem.scanFrom nesting offset skipped characters) := by
  induction characters generalizing nesting offset skipped with
  | nil => exact .last rfl
  | cons character rest ih =>
      cases skipped with
      | succ skipped => exact ih nesting offset skipped
      | zero =>
          have inner := Lexeme.first_ne_endOfSource (0 < nesting) character rest
          unfold LexicalItem.scanFrom
          generalize Lexeme.first (0 < nesting) character rest = lexeme at inner
          obtain ⟨lexeme, count⟩ := lexeme
          cases lexeme with
          | blank => exact ih _ _ _
          | invalid cause => exact .item (fun _ same => by cases same) (ih _ _ _)
          | token kind =>
              refine .item ?_ (ih _ _ _)
              rintro token ⟨⟩ rfl
              exact inner rfl

/-!
## Accounts
-/

/-- The marks account for the token, which is not the end of the source. -/
structure Token.AccountedBy (token : Token) (marks : List Mark) : Prop where
  inner : token.kind ≠ .endOfSource
  account : Mark.AccountFor marks [token]

namespace Token.AccountedBy

variable {token : Token} {kind : TokenKind}

theorem punctuation (same : token.kind = kind) (unlisted : kind.isListed = false)
    (inner : kind ≠ .endOfSource) : token.AccountedBy [] :=
  ⟨same ▸ inner, .nothing (by simpa [same] using unlisted)⟩

theorem of_stands {mark : Mark} (stands : mark.StandsFor [token]) : token.AccountedBy [mark] where
  inner ends := by
    have listed := stands.listed token (List.mem_singleton_self token)
    rw [ends] at listed
    cases listed
  account := .single stands

theorem symbol (same : token.kind = kind) (listed : kind.isListed = true) :
    token.AccountedBy [.symbol kind] := by
  subst same
  exact .of_stands (.symbol listed)

end Token.AccountedBy

/-- The marks account for the tokens that are taken between two cursors. -/
def Cursor.Accounted (before after : Cursor) (marks : List Mark) : Prop :=
  LexicalItem.Closed before.items → ∃ used : List Token,
    before.items = used.map .ok ++ after.items ∧ LexicalItem.Closed after.items ∧
      Mark.AccountFor marks used

namespace Cursor.Accounted

theorem stays {before after : Cursor} (same : after.items = before.items) :
    before.Accounted after [] :=
  fun closed => ⟨[], same.symm, same ▸ closed, .nothing (List.forall_mem_nil _)⟩

theorem trans {first second third : Cursor} {marks more : List Mark}
    (early : first.Accounted second marks) (late : second.Accounted third more) :
    first.Accounted third (marks ++ more) := by
  intro closed
  obtain ⟨used, items, closed, account⟩ := early closed
  obtain ⟨others, behind, closed, laterAccount⟩ := late closed
  exact ⟨used ++ others, by rw [items, behind]; simp, closed, account.append laterAccount⟩

theorem quiet {first second third : Cursor} {marks : List Mark}
    (early : first.Accounted second marks) (late : second.Accounted third []) :
    first.Accounted third marks := by
  simpa using early.trans late

end Cursor.Accounted

namespace Parse

variable {cursor middle after : Cursor} {token : Token} {kind : TokenKind} {marks : List Mark}

theorem peek_ok (read : peek cursor = .ok (token, after)) :
    cursor = after ∧
      (token.kind ≠ .endOfSource → ∃ rest, cursor.items = .ok token :: rest) := by
  unfold peek at read
  split at read
  · cases read
    exact ⟨rfl, fun inner => (inner rfl).elim⟩
  · next found rest same =>
      cases read
      exact ⟨rfl, fun _ => ⟨rest, same⟩⟩
  · cases read

/-- A token that is looked at and passed over has been taken. -/
theorem skip_taken (read : peek cursor = .ok (token, middle))
    (skipped : skip middle = .ok ((), after)) (inner : token.kind ≠ .endOfSource)
    (closed : LexicalItem.Closed cursor.items) :
    cursor.items = .ok token :: after.items ∧ LexicalItem.Closed after.items := by
  obtain ⟨rfl, head⟩ := peek_ok read
  obtain ⟨rest, items⟩ := head inner
  rw [items] at closed
  cases closed with
  | last ends => exact (inner ends).elim
  | item _ closed =>
      obtain ⟨next, more, rfl⟩ : ∃ next more, rest = next :: more := by
        cases closed with
        | last => exact ⟨_, _, rfl⟩
        | item => exact ⟨_, _, rfl⟩
      unfold skip at skipped
      rw [items] at skipped
      cases skipped
      exact ⟨items, closed⟩

theorem accounted_skip (read : peek cursor = .ok (token, middle))
    (skipped : skip middle = .ok ((), after)) (accounted : token.AccountedBy marks) :
    cursor.Accounted after marks := by
  intro closed
  obtain ⟨items, stillClosed⟩ := skip_taken read skipped accounted.inner closed
  exact ⟨[token], items, stillClosed, accounted.account⟩

theorem next_ok (read : next cursor = .ok (token, after)) :
    peek cursor = .ok (token, cursor) ∧ skip cursor = .ok ((), after) := by
  unfold next at read
  split at read
  · cases read
  · obtain ⟨found, middle, peeked, read⟩ := bind_ok read
    obtain ⟨rfl, _⟩ := peek_ok peeked
    obtain ⟨_, last, skipped, finished⟩ := bind_ok read
    cases finished
    exact ⟨peeked, skipped⟩

theorem accounted_next (read : next cursor = .ok (token, after))
    (accounted : token.AccountedBy marks) : cursor.Accounted after marks :=
  accounted_skip (next_ok read).1 (next_ok read).2 accounted

theorem expect_ok (read : expect kind cursor = .ok (token, after)) :
    token.kind = kind ∧ next cursor = .ok (token, after) := by
  obtain ⟨found, middle, taken, read⟩ := bind_ok read
  split at read
  · next same =>
      cases read
      exact ⟨same, taken⟩
  · cases read

theorem accounted_expect (read : expect kind cursor = .ok (token, after))
    (unlisted : kind.isListed = false) (inner : kind ≠ .endOfSource) :
    cursor.Accounted after [] := by
  obtain ⟨same, taken⟩ := expect_ok read
  exact accounted_next taken (.punctuation same unlisted inner)

theorem accounted_name {identifier : String} {span : Span}
    (read : name cursor = .ok ((identifier, span), after)) :
    cursor.Accounted after [.name identifier] := by
  obtain ⟨token, middle, taken, finished⟩ := bind_ok read
  obtain ⟨same, taken⟩ := expect_ok taken
  cases finished
  exact accounted_next taken (.of_stands (.name same))

theorem accept?_ok {answer : Option Token} (read : accept? kind cursor = .ok (answer, after)) :
    (answer = none ∧ cursor = after) ∨
      ∃ token, answer = some token ∧ token.kind = kind ∧
        peek cursor = .ok (token, cursor) ∧ skip cursor = .ok ((), after) := by
  obtain ⟨token, middle, peeked, answered⟩ := bind_ok read
  obtain ⟨rfl, _⟩ := peek_ok peeked
  split at answered
  · next same =>
      obtain ⟨_, last, skipped, finished⟩ := bind_ok answered
      cases finished
      exact .inr ⟨token, rfl, same, peeked, skipped⟩
  · cases answered
    exact .inl ⟨rfl, rfl⟩

theorem accounted_accept {taken : Bool} (read : accept kind cursor = .ok (taken, after))
    (accounted : ∀ token : Token, token.kind = kind → token.AccountedBy marks) :
    cursor.Accounted after (if taken then marks else []) := by
  unfold accept at read
  rw [map_eq_pure_bind] at read
  obtain ⟨answer, middle, read, finished⟩ := bind_ok read
  cases finished
  rcases accept?_ok read with ⟨rfl, rfl⟩ | ⟨token, rfl, same, peeked, skipped⟩
  · exact .stays rfl
  · exact accounted_skip peeked skipped (accounted token same)

theorem accounted_skipKinds {kinds : List TokenKind}
    (quiet : ∀ kind ∈ kinds, kind.isListed = false)
    (read : skipKinds kinds cursor = .ok ((), after)) : cursor.Accounted after [] := by
  cases read
  have dropped (items : List LexicalItem) (closed : LexicalItem.Closed items) :
      ∃ used : List Token, items = used.map .ok ++ dropKinds kinds items ∧
        LexicalItem.Closed (dropKinds kinds items) ∧ Mark.AccountFor [] used := by
    fun_induction dropKinds kinds items with
    | case1 token following rest taken ih =>
        obtain ⟨used, same, stillClosed, account⟩ := ih (by cases closed; assumption)
        have unlisted : Mark.AccountFor [] [token] :=
          .nothing (by simpa using quiet _ (List.contains_iff_mem.mp taken))
        exact ⟨token :: used, by rw [List.map_cons, List.cons_append, ← same], stillClosed,
          unlisted.append account⟩
    | case2 | case3 => exact ⟨[], rfl, closed, .nothing (List.forall_mem_nil _)⟩
  exact dropped cursor.items

theorem accounted_terminator (read : terminator cursor = .ok ((), after)) :
    cursor.Accounted after [] := by
  obtain ⟨token, middle, peeked, read⟩ := bind_ok read
  generalize kindIs : token.kind = kind at read
  split at read
  · exact accounted_skip peeked read (.punctuation kindIs rfl (by decide))
  · exact accounted_skip peeked read (.punctuation kindIs rfl (by decide))
  · cases read
    exact .stays (congrArg Cursor.items (peek_ok peeked).1.symm)
  · cases read

theorem accounted_closeCompound {severalLines : Bool}
    (read : closeCompound severalLines cursor = .ok ((), after)) : cursor.Accounted after [] := by
  unfold closeCompound at read
  split at read
  · obtain ⟨token, middle, taken, read⟩ := bind_ok read
    exact (accounted_expect taken rfl (by decide)).quiet (accounted_terminator read)
  · cases read
    exact .stays rfl

theorem accounted_parameters (bound : Nat) {names : List String}
    (read : parameters bound cursor = .ok (names, after)) :
    cursor.Accounted after (names.map Mark.name) := by
  induction bound generalizing cursor names with
  | zero => cases read
  | succ bound ih =>
      simp only [parameters] at read
      obtain ⟨closed, first, closedRead, read⟩ := bind_ok read
      have opening := accounted_accept closedRead fun _ same => .punctuation same rfl (by decide)
      simp only [ite_self] at opening
      split at read
      · cases read
        exact opening
      · obtain ⟨⟨parameter, span⟩, second, nameRead, read⟩ := bind_ok read
        obtain ⟨more, third, moreRead, read⟩ := bind_ok read
        have separated := accounted_accept moreRead fun _ same => .punctuation same rfl (by decide)
        simp only [ite_self] at separated
        have named := opening.trans ((accounted_name nameRead).quiet separated)
        split at read
        · obtain ⟨rest, fourth, restRead, finished⟩ := bind_ok read
          cases finished
          exact named.trans (ih restRead)
        · obtain ⟨close, fourth, closeRead, finished⟩ := bind_ok read
          cases finished
          exact named.quiet (accounted_expect closeRead rfl (by decide))

end Parse

/-!
## Expressions
-/

/-- What an assignment to the target evaluates first, with its traversal. -/
def AssignTarget.Spells (script : Script) (accounted : List Mark → Prop) : AssignTarget → Prop
  | .name identifier => accounted [.name identifier]
  | .member object identifier =>
      ∃ tree : ExpressionTree, tree.At script object ∧ accounted (tree.marks ++ [.name identifier])
  | .element object index =>
      ∃ objectTree indexTree : ExpressionTree, objectTree.At script object ∧
        indexTree.At script index ∧ accounted (objectTree.marks ++ indexTree.marks)

/-- The node and the target of an expression spell trees with accounted traversals. -/
structure ParsedExpression.Spells (script : Script) (accounted : List Mark → Prop)
    (parsed : ParsedExpression) : Prop where
  node : ∃ tree : ExpressionTree, tree.At script parsed.node ∧ accounted tree.marks
  target : ∀ target, parsed.target = some target → target.Spells script accounted

/-- An expression that cannot be assigned to spells as much as its node does. -/
theorem ParsedExpression.Spells.of_node {script : Script} {accounted : List Mark → Prop}
    {parsed : ParsedExpression}
    (node : ∃ tree : ExpressionTree, tree.At script parsed.node ∧ accounted tree.marks)
    (untargeted : parsed.target = none) : parsed.Spells script accounted :=
  ⟨node, by simp [untargeted]⟩

namespace MiddleOperator

theorem kind_of_ofKind? {kind : TokenKind} (operator : MiddleOperator)
    (found : ofKind? kind = some operator) : operator.word.kind = kind := by
  cases kind <;> cases found <;> rfl

theorem isListed_word (operator : MiddleOperator) : operator.word.kind.isListed = true := by
  cases operator with
  | binary operator => cases operator <;> rfl
  | logical operator => cases operator <;> rfl

theorem exists_built {script : Script} (operator : MiddleOperator) {left right : ExpressionRef}
    {leftTree rightTree : ExpressionTree} (leftAt : leftTree.At script left)
    (rightAt : rightTree.At script right) (span : Span) :
    ∃ tree : ExpressionTree, tree.BuiltFrom script (operator.node left right span) ∧
      tree.marks = leftTree.marks ++ .symbol operator.word.kind :: rightTree.marks := by
  cases operator with
  | binary operator =>
      exact ⟨.binary operator leftTree rightTree span, ⟨left, right, rfl, leftAt, rightAt⟩, rfl⟩
  | logical operator =>
      exact ⟨.shortCircuit operator leftTree rightTree span,
        ⟨left, right, rfl, leftAt, rightAt⟩, rfl⟩

end MiddleOperator

namespace Parse

variable {cursor after : Cursor} {result : ParsedExpression}

theorem built_pushExpression {node : Expression} {reference : ExpressionRef}
    {tree : ExpressionTree} (pushed : pushExpression node cursor = .ok (reference, after))
    (built : tree.BuiltFrom cursor.script node) :
    tree.At after.script reference ∧ cursor.script.KeepsExpressions after.script ∧
      after.items = cursor.items := by
  cases pushed
  exact ⟨built.push, (cursor.script.extends_pushExpression node).expressions, rfl⟩

/-- The productions for expressions take what the traversals of their results account for.
A production that goes on behind an operand accounts for that too, from where it began. -/
structure SpellsExpressions (bound : Nat) : Prop where
  operand {cursor after : Cursor} {result : ParsedExpression}
    (parsed : operand bound cursor = .ok (result, after)) :
    result.Spells after.script (cursor.Accounted after)
  unary {cursor after origin : Cursor} {result : ParsedExpression} {operator : UnaryOperator}
    {start : Span} (parsed : unary bound operator start cursor = .ok (result, after))
    (before : origin.Accounted cursor [.symbol operator.word.kind]) :
    result.Spells after.script (origin.Accounted after)
  listUntil {cursor after : Cursor} {nodes : List ExpressionRef} {close : Token}
    {closing : TokenKind} (parsed : listUntil bound closing cursor = .ok ((nodes, close), after))
    (unlisted : closing.isListed = false) (inner : closing ≠ .endOfSource) :
    ∃ trees, ExpressionTree.AllAt after.script trees nodes after.script.expressions.size ∧
      cursor.Accounted after (ExpressionTree.allMarks trees)
  suffixOf {cursor after origin : Cursor} {left result : ParsedExpression} {token : Token}
    (parsed : suffixOf bound left cursor = .ok (result, after))
    (opens : peek cursor = .ok (token, cursor)) (opening : token.AccountedBy [])
    (before : left.Spells cursor.script (origin.Accounted cursor)) :
    result.Spells after.script (origin.Accounted after)
  expressionFrom {cursor after : Cursor} {result : ParsedExpression} {power : Nat}
    (parsed : expressionFrom bound power cursor = .ok (result, after)) :
    result.Spells after.script (cursor.Accounted after)
  continued {cursor after origin : Cursor} {left result : ParsedExpression} {power : Nat}
    (parsed : continued bound power left cursor = .ok (result, after))
    (before : left.Spells cursor.script (origin.Accounted cursor)) :
    result.Spells after.script (origin.Accounted after)

private theorem spells_pushed {origin : Cursor} {node : Expression} {reference : ExpressionRef}
    {tree : ExpressionTree} (pushed : pushExpression node cursor = .ok (reference, after))
    (built : tree.BuiltFrom cursor.script node) (before : origin.Accounted cursor tree.marks) :
    ∃ tree : ExpressionTree, tree.At after.script reference ∧
      origin.Accounted after tree.marks := by
  obtain ⟨treeAt, _, items⟩ := built_pushExpression pushed built
  exact ⟨tree, treeAt, before.quiet (.stays items)⟩

private theorem spells_literal {origin : Cursor} {value : Value} {span : Span}
    (parsed : literal value span cursor = .ok (result, after))
    (before : origin.Accounted cursor [.literal value]) :
    result.Spells after.script (origin.Accounted after) := by
  obtain ⟨node, middle, pushed, finished⟩ := bind_ok parsed
  have built : (ExpressionTree.constant value span).BuiltFrom cursor.script _ := rfl
  cases finished
  exact .of_node (spells_pushed pushed built before) rfl

private theorem spells_operand {bound : Nat} (ih : SpellsExpressions bound)
    (parsed : operand (bound + 1) cursor = .ok (result, after)) :
    result.Spells after.script (cursor.Accounted after) := by
  simp only [operand] at parsed
  obtain ⟨token, first, tokenRead, parsed⟩ := bind_ok parsed
  generalize kindIs : token.kind = kind at parsed
  have stands {mark : Mark} (stands : mark.StandsFor [token]) : cursor.Accounted first [mark] :=
    accounted_next tokenRead (.of_stands stands)
  have quiet (unlisted : kind.isListed = false) (inner : kind ≠ .endOfSource) :
      cursor.Accounted first [] :=
    accounted_next tokenRead (.punctuation kindIs unlisted inner)
  split at parsed
  · exact (refuse_ok parsed).elim
  · exact spells_literal parsed (stands (.number kindIs))
  · exact spells_literal parsed (stands (.text kindIs))
  · exact spells_literal parsed (stands (.trueWord kindIs))
  · exact spells_literal parsed (stands (.falseWord kindIs))
  · exact spells_literal parsed (stands (.noneWord kindIs))
  · obtain ⟨node, middle, pushed, finished⟩ := bind_ok parsed
    have named := stands (.name kindIs)
    have built : (ExpressionTree.name token.lexeme token.span).BuiltFrom first.script _ := rfl
    obtain ⟨_, _, items⟩ := built_pushExpression pushed built
    cases finished
    refine ⟨spells_pushed pushed built named, ?_⟩
    rintro target ⟨⟩
    exact named.quiet (.stays items)
  · exact ih.unary parsed (accounted_next tokenRead (.symbol kindIs rfl))
  · exact ih.unary parsed (accounted_next tokenRead (.symbol kindIs rfl))
  · obtain ⟨inner, second, innerParsed, parsed⟩ := bind_ok parsed
    obtain ⟨close, third, closeRead, finished⟩ := bind_ok parsed
    obtain ⟨tree, treeAt, account⟩ := (ih.expressionFrom innerParsed).node
    have closed := accounted_expect closeRead rfl (by decide)
    have kept := keepsScript_expect _ _ _ _ closeRead
    cases finished
    rw [← kept] at treeAt
    exact .of_node ⟨tree, treeAt, ((quiet rfl (by decide)).trans account).quiet closed⟩ rfl
  · obtain ⟨⟨elements, close⟩, second, listParsed, parsed⟩ := bind_ok parsed
    obtain ⟨node, third, pushed, finished⟩ := bind_ok parsed
    obtain ⟨trees, treesAt, account⟩ := ih.listUntil listParsed rfl (by decide)
    have built : (ExpressionTree.array trees (token.span.merge close.span)).BuiltFrom
        second.script (.array elements (token.span.merge close.span)) := ⟨elements, rfl, treesAt⟩
    cases finished
    exact .of_node (spells_pushed pushed built ((quiet rfl (by decide)).trans account)) rfl
  · exact (refuse_ok parsed).elim

private theorem spells_unary {bound : Nat} (ih : SpellsExpressions bound) {origin : Cursor}
    {operator : UnaryOperator} {start : Span}
    (parsed : unary (bound + 1) operator start cursor = .ok (result, after))
    (before : origin.Accounted cursor [.symbol operator.word.kind]) :
    result.Spells after.script (origin.Accounted after) := by
  simp only [unary] at parsed
  obtain ⟨inner, middle, innerParsed, parsed⟩ := bind_ok parsed
  obtain ⟨node, last, pushed, finished⟩ := bind_ok parsed
  obtain ⟨tree, treeAt, account⟩ := (ih.expressionFrom innerParsed).node
  have built : (ExpressionTree.unary operator tree (start.merge inner.span)).BuiltFrom
      middle.script (.unary operator inner.node (start.merge inner.span)) :=
    ⟨inner.node, rfl, treeAt⟩
  cases finished
  exact .of_node (spells_pushed pushed built (before.trans account)) rfl

private theorem spells_listUntil {bound : Nat} (ih : SpellsExpressions bound)
    {nodes : List ExpressionRef} {close : Token} {closing : TokenKind}
    (parsed : listUntil (bound + 1) closing cursor = .ok ((nodes, close), after))
    (unlisted : closing.isListed = false) (inner : closing ≠ .endOfSource) :
    ∃ trees, ExpressionTree.AllAt after.script trees nodes after.script.expressions.size ∧
      cursor.Accounted after (ExpressionTree.allMarks trees) := by
  simp only [listUntil] at parsed
  obtain ⟨closed, first, closedRead, parsed⟩ := bind_ok parsed
  rcases accept?_ok closedRead with ⟨rfl, rfl⟩ | ⟨token, rfl, same, peeked, skipped⟩
  · obtain ⟨item, second, itemParsed, parsed⟩ := bind_ok parsed
    obtain ⟨more, third, moreRead, parsed⟩ := bind_ok parsed
    obtain ⟨tree, treeAt, account⟩ := (ih.expressionFrom itemParsed).node
    have separated := accounted_accept moreRead fun _ same => .punctuation same rfl (by decide)
    have kept := keepsScript_accept _ _ _ _ moreRead
    simp only [ite_self] at separated
    rw [← kept] at treeAt
    split at parsed
    · obtain ⟨⟨items, last⟩, fourth, restParsed, finished⟩ := bind_ok parsed
      obtain ⟨trees, treesAt, restAccount⟩ := ih.listUntil restParsed unlisted inner
      have grown := ((rootsExpressions bound).listUntil _ _ _ _ restParsed trivial).1.expressions
      have later := treeAt.grow grown
      cases finished
      exact ⟨tree :: trees, ⟨⟨later.present, later⟩, treesAt⟩,
        (account.quiet separated).trans restAccount⟩
    · obtain ⟨last, fourth, lastRead, finished⟩ := bind_ok parsed
      have closed := accounted_expect lastRead unlisted inner
      have keptLast := keepsScript_expect _ _ _ _ lastRead
      cases finished
      rw [← keptLast] at treeAt
      refine ⟨[tree], ⟨⟨treeAt.present, treeAt⟩, trivial⟩, ?_⟩
      simpa [ExpressionTree.allMarks] using (account.quiet separated).quiet closed
  · have taken := accounted_skip peeked skipped (.punctuation same unlisted inner)
    cases parsed
    exact ⟨[], trivial, taken⟩

private theorem spells_suffixOf {bound : Nat} (ih : SpellsExpressions bound) {origin : Cursor}
    {left : ParsedExpression} {token : Token}
    (parsed : suffixOf (bound + 1) left cursor = .ok (result, after))
    (opens : peek cursor = .ok (token, cursor)) (opening : token.AccountedBy [])
    (before : left.Spells cursor.script (origin.Accounted cursor)) :
    result.Spells after.script (origin.Accounted after) := by
  simp only [suffixOf] at parsed
  obtain ⟨found, first, tokenRead, parsed⟩ := bind_ok parsed
  have opened : cursor.Accounted first [] := by
    cases opens.symm.trans (next_ok tokenRead).1
    exact accounted_next tokenRead opening
  have kept := keepsScript_next _ _ _ tokenRead
  obtain ⟨tree, treeAt, account⟩ := before.node
  rw [← kept] at treeAt
  generalize found.kind = kind at parsed
  split at parsed
  · obtain ⟨⟨arguments, close⟩, second, listParsed, parsed⟩ := bind_ok parsed
    obtain ⟨node, third, pushed, finished⟩ := bind_ok parsed
    obtain ⟨trees, treesAt, restAccount⟩ := ih.listUntil listParsed rfl (by decide)
    have grown := ((rootsExpressions bound).listUntil _ _ _ _ listParsed trivial).1.expressions
    have built : (ExpressionTree.call tree trees (left.span.merge close.span)).BuiltFrom
        second.script (.call left.node arguments (left.span.merge close.span)) :=
      ⟨left.node, arguments, rfl, treeAt.grow grown, treesAt⟩
    cases finished
    exact .of_node (spells_pushed pushed built ((account.quiet opened).trans restAccount)) rfl
  · obtain ⟨index, second, indexParsed, parsed⟩ := bind_ok parsed
    obtain ⟨close, third, closeRead, parsed⟩ := bind_ok parsed
    obtain ⟨node, fourth, pushed, finished⟩ := bind_ok parsed
    obtain ⟨indexTree, indexAt, indexAccount⟩ := (ih.expressionFrom indexParsed).node
    have closed := accounted_expect closeRead rfl (by decide)
    have keptClose := keepsScript_expect _ _ _ _ closeRead
    have grown :=
      ((rootsExpressions bound).expressionFrom _ _ _ _ indexParsed trivial).1.expressions
    have objectAt := treeAt.grow grown
    rw [← keptClose] at objectAt indexAt
    have built : (ExpressionTree.element tree indexTree (left.span.merge close.span)).BuiltFrom
        third.script (.element left.node index.node (left.span.merge close.span)) :=
      ⟨left.node, index.node, rfl, objectAt, indexAt⟩
    have whole := ((account.quiet opened).trans indexAccount).quiet closed
    obtain ⟨_, added, items⟩ := built_pushExpression pushed built
    cases finished
    refine ⟨spells_pushed pushed built whole, ?_⟩
    rintro target ⟨⟩
    exact ⟨tree, indexTree, objectAt.grow added, indexAt.grow added, whole.quiet (.stays items)⟩
  · obtain ⟨⟨memberName, memberSpan⟩, second, nameRead, parsed⟩ := bind_ok parsed
    obtain ⟨member, third, memberPushed, parsed⟩ := bind_ok parsed
    obtain ⟨node, fourth, pushed, finished⟩ := bind_ok parsed
    have named := accounted_name nameRead
    have keptName := keepsScript_name _ _ _ nameRead
    rw [← keptName] at treeAt
    have builtName : (ExpressionTree.name memberName memberSpan).BuiltFrom second.script _ := rfl
    obtain ⟨memberFound, grown, memberItems⟩ := built_pushExpression memberPushed builtName
    have objectAt := treeAt.grow grown
    have built : (ExpressionTree.member tree memberName memberSpan
        (left.span.merge memberSpan)).BuiltFrom third.script
          (.member left.node member (left.span.merge memberSpan)) :=
      ⟨left.node, member, rfl, objectAt, memberFound⟩
    have whole := ((account.quiet opened).trans named).quiet (.stays memberItems)
    obtain ⟨_, added, items⟩ := built_pushExpression pushed built
    cases finished
    refine ⟨spells_pushed pushed built whole, ?_⟩
    rintro target ⟨⟩
    exact ⟨tree, objectAt.grow added, whole.quiet (.stays items)⟩

private theorem spells_continued {bound : Nat} (ih : SpellsExpressions bound) {origin : Cursor}
    {left : ParsedExpression} {power : Nat}
    (parsed : continued (bound + 1) power left cursor = .ok (result, after))
    (before : left.Spells cursor.script (origin.Accounted cursor)) :
    result.Spells after.script (origin.Accounted after) := by
  simp only [continued] at parsed
  obtain ⟨token, first, tokenRead, parsed⟩ := bind_ok parsed
  obtain ⟨rfl, _⟩ := peek_ok tokenRead
  generalize kindIs : token.kind = kind at parsed
  split at parsed
  iterate 3
    split at parsed
    · cases parsed
      exact before
    · obtain ⟨extended, second, extendedParsed, parsed⟩ := bind_ok parsed
      have suffix := ih.suffixOf extendedParsed tokenRead
        (.punctuation kindIs rfl (by decide)) before
      exact ih.continued parsed suffix
  · cases found : MiddleOperator.ofKind? _ with
    | none =>
        rw [found] at parsed
        cases parsed
        exact before
    | some operator =>
        rw [found] at parsed
        dsimp only at parsed
        split at parsed
        · cases parsed
          exact before
        · obtain ⟨_, second, skipped, parsed⟩ := bind_ok parsed
          obtain ⟨right, third, rightParsed, parsed⟩ := bind_ok parsed
          obtain ⟨node, fourth, pushed, parsed⟩ := bind_ok parsed
          obtain ⟨tree, treeAt, account⟩ := before.node
          obtain ⟨rightTree, rightAt, rightAccount⟩ := (ih.expressionFrom rightParsed).node
          have kept := keepsScript_skip _ _ _ skipped
          have grown :=
            ((rootsExpressions bound).expressionFrom _ _ _ _ rightParsed trivial).1.expressions
          rw [← kept] at treeAt
          obtain ⟨whole, built, same⟩ :=
            operator.exists_built (treeAt.grow grown) rightAt (left.span.merge right.span)
          have taken : cursor.Accounted second [.symbol operator.word.kind] := by
            rw [operator.kind_of_ofKind? found]
            exact accounted_skip tokenRead skipped
              (.symbol kindIs (operator.kind_of_ofKind? found ▸ operator.isListed_word))
          refine ih.continued parsed (.of_node (spells_pushed pushed built ?_) rfl)
          rw [same]
          exact account.trans (taken.trans rightAccount)

theorem spellsExpressions (bound : Nat) : SpellsExpressions bound := by
  induction bound with
  | zero =>
      refine ⟨fun parsed => ?_, fun parsed _ => ?_, fun parsed _ _ => ?_, fun parsed _ _ _ => ?_,
        fun parsed => ?_, fun parsed _ => ?_⟩
      all_goals cases parsed
  | succ bound ih =>
      refine ⟨spells_operand ih, spells_unary ih, spells_listUntil ih, spells_suffixOf ih, ?_,
        spells_continued ih⟩
      intro cursor after result power parsed
      simp only [expressionFrom] at parsed
      obtain ⟨left, middle, leftParsed, parsed⟩ := bind_ok parsed
      exact ih.continued parsed (ih.operand leftParsed)

theorem spells_expression {bound : Nat} (parsed : expression bound cursor = .ok (result, after)) :
    result.Spells after.script (cursor.Accounted after) :=
  (spellsExpressions bound).expressionFrom parsed

end Parse

end ScriptEngine
