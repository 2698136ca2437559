import Mathlib
import ScriptEngine.Proofs.Grammar.Accounted
import ScriptEngine.Proofs.Grammar.Grouping
import ScriptEngine.Proofs.Grammar.Places
import ScriptEngine.Proofs.Grammar.Steps

/-!
# Every expression that is read is grouped so

The tokens that a production for expressions takes are grouped to the tree of what it gives
(`Parse.groupsExpressions`). So every expression of a script that the parser has built from a
source spells a tree that some tokens of the source are grouped to, and covers what these
tokens cover (`Script.ReadFrom.grouped`).
-/

set_option autoImplicit false

namespace ScriptEngine

/-- The source that the node of the tree covers. -/
def ExpressionTree.span : ExpressionTree → Span
  | constant _ span => span
  | name _ span => span
  | unary _ _ span => span
  | binary _ _ _ span => span
  | shortCircuit _ _ _ span => span
  | member _ _ _ span => span
  | element _ _ span => span
  | array _ span => span
  | call _ _ span => span

theorem MiddleOperator.span_tree (operator : MiddleOperator) (left right : ExpressionTree)
    (span : Span) : (operator.tree left right span).span = span := by
  cases operator <;> rfl

/-- Some tokens of the source are grouped to the tree, and its node covers what they cover. -/
def ExpressionTree.Grouped (source : String) (tree : ExpressionTree) : Prop :=
  ∃ (power behind : Nat) (row : List Token),
    row.map .ok <:+: LexicalItem.scan source ∧
      (Grouping.expression power behind tree tree.span).Of row

/-- Every expression spells a tree that some tokens of the source are grouped to. -/
def Script.Grouped (source : String) (script : Script) : Prop :=
  ∀ reference expression, script.expression? reference = some expression →
    ∃ tree : ExpressionTree, tree.At script reference ∧ tree.Grouped source

theorem Script.Grouped.grow {source : String} {old new : Script} (grouped : old.Grouped source)
    (same : new.expressions = old.expressions) : new.Grouped source := by
  intro reference expression found
  rw [Script.expression?, same] at found
  obtain ⟨tree, treeAt, stands⟩ := grouped reference expression found
  have grown : old.KeepsExpressions new := fun index _ => by rw [same]
  exact ⟨tree, treeAt.grow grown, stands⟩

theorem Script.Grouped.pushExpression {source : String} {script : Script}
    (grouped : script.Grouped source) {node : Expression} {tree : ExpressionTree}
    (built : tree.BuiltFrom script node) (stands : tree.Grouped source) :
    (script.pushExpression node).2.Grouped source := by
  intro reference expression found
  have grown := (script.extends_pushExpression node).expressions
  have present : reference.index < (script.expressions.push node).size :=
    (Array.getElem?_eq_some_iff.mp found).choose
  rw [Array.size_push] at present
  rcases Nat.lt_succ_iff_lt_or_eq.mp present with old | last
  · have kept : script.expression? reference = some expression :=
      (grown reference.index old).symm.trans found
    obtain ⟨others, othersAt, othersStand⟩ := grouped reference expression kept
    exact ⟨others, othersAt.grow grown, othersStand⟩
  · obtain rfl : reference = (script.pushExpression node).1 := by
      cases reference
      cases last
      rfl
    exact ⟨tree, built.push, stands⟩

/-- The power with which what is next takes what stands before it. -/
def Cursor.leftPower (cursor : Cursor) : Nat :=
  match cursor.items with
  | .ok token :: _ => token.kind.leftPower
  | _ => 0

/-- What is left to read are the last items of the source, and every expression that has been
built spells a tree that some tokens of the source are grouped to. -/
structure Cursor.Grouped (source : String) (cursor : Cursor) : Prop where
  items : cursor.items <:+ LexicalItem.scan source
  closed : LexicalItem.Closed cursor.items
  script : cursor.script.Grouped source

/-- The tokens up to the cursor are grouped to the tree of what has been read. -/
def ParsedExpression.Groups (power : Nat) (origin : List LexicalItem) (after : Cursor)
    (parsed : ParsedExpression) : Prop :=
  ∃ (row : List Token) (tree : ExpressionTree), origin = row.map .ok ++ after.items ∧
    tree.At after.script parsed.node ∧
    (Grouping.expression power after.leftPower tree parsed.span).Of row

/-- Nothing that needs at least the given power goes on behind the cursor. -/
def Cursor.Stops (power : Nat) (cursor : Cursor) : Prop :=
  cursor.leftPower = 0 ∨ cursor.leftPower < power

theorem Cursor.Stops.eq_zero {cursor : Cursor} (stops : cursor.Stops 0) : cursor.leftPower = 0 :=
  stops.elim id fun below => absurd below (Nat.not_lt_zero _)

theorem TokenKind.of_leftPower {kind : TokenKind} (suffix : kind.leftPower = suffixPower) :
    kind = .leftParenthesis ∨ kind = .leftBracket ∨ kind = .dot := by
  cases kind
  case leftParenthesis | leftBracket | dot => simp
  all_goals exact absurd suffix (by decide)

theorem TokenKind.leftPower_of_other {kind : TokenKind} (noCall : kind ≠ .leftParenthesis)
    (noElement : kind ≠ .leftBracket) (noMember : kind ≠ .dot)
    (noOperator : MiddleOperator.ofKind? kind = none) : kind.leftPower = 0 := by
  cases kind <;> first | rfl | contradiction

namespace Parse

variable {source : String} {cursor middle after : Cursor} {token : Token} {kind : TokenKind}
  {result : ParsedExpression} {origin : List LexicalItem} {row : List Token} {power : Nat}

/-!
## Taking tokens
-/

theorem leftPower_of_peek (read : peek cursor = .ok (token, middle)) :
    cursor.leftPower = token.kind.leftPower := by
  obtain ⟨items, script⟩ := cursor
  unfold peek at read
  split at read
  · next same =>
      obtain rfl : items = [] := same
      cases read
      rfl
  · next found rest same =>
      obtain rfl : items = .ok found :: rest := same
      cases read
      rfl
  · cases read

theorem grouped_skip (grouped : cursor.Grouped source) (read : peek cursor = .ok (token, middle))
    (skipped : skip middle = .ok ((), after)) (inner : token.kind ≠ .endOfSource) :
    cursor.items = .ok token :: after.items ∧ after.script = cursor.script ∧
      after.Grouped source := by
  obtain ⟨items, closed⟩ := skip_taken read skipped inner grouped.closed
  obtain ⟨rfl, _⟩ := peek_ok read
  have kept := keepsScript_skip _ _ _ skipped
  have suffix : after.items <:+ cursor.items := items ▸ List.suffix_cons _ _
  exact ⟨items, kept, suffix.trans grouped.items, closed, kept ▸ grouped.script⟩

theorem grouped_next (grouped : cursor.Grouped source) (read : next cursor = .ok (token, after))
    (inner : token.kind ≠ .endOfSource) :
    cursor.items = .ok token :: after.items ∧ after.script = cursor.script ∧
      after.Grouped source :=
  grouped_skip grouped (next_ok read).1 (next_ok read).2 inner

theorem grouped_expect (grouped : cursor.Grouped source)
    (read : expect kind cursor = .ok (token, after)) (inner : kind ≠ .endOfSource) :
    token.kind = kind ∧ cursor.items = .ok token :: after.items ∧
      after.script = cursor.script ∧ after.Grouped source := by
  obtain ⟨same, taken⟩ := expect_ok read
  exact ⟨same, grouped_next grouped taken (same ▸ inner)⟩

/-!
## Expressions
-/

/-- A node that is pushed for the tokens that have been taken. -/
private theorem groups_pushed (grouped : cursor.Grouped source)
    (suffix : origin <:+ LexicalItem.scan source) (row : List Token)
    (items : origin = row.map .ok ++ cursor.items) {node : Expression}
    {reference : ExpressionRef} (pushed : pushExpression node cursor = .ok (reference, after))
    (tree : ExpressionTree) (built : tree.BuiltFrom cursor.script node)
    (grouping : (Grouping.expression power cursor.leftPower tree tree.span).Of row)
    (target : Option AssignTarget) :
    after.Grouped source ∧
      ParsedExpression.Groups power origin after ⟨reference, tree.span, target⟩ := by
  cases pushed
  have stretch : row.map .ok <:+: LexicalItem.scan source :=
    (items ▸ List.prefix_append _ _ : row.map .ok <+: origin).isInfix.trans suffix.isInfix
  exact ⟨⟨grouped.items, grouped.closed,
    grouped.script.pushExpression built ⟨power, _, row, stretch, grouping⟩⟩,
    row, tree, items, built.push, grouping⟩

/-- The tokens that a production for expressions takes are grouped to what it gives. A
production that goes on behind an operand accounts for that too, from where it began. -/
structure GroupsExpressions (source : String) (bound : Nat) : Prop where
  operand {cursor after : Cursor} {result : ParsedExpression} (power : Nat)
    (parsed : operand bound cursor = .ok (result, after)) (grouped : cursor.Grouped source) :
    after.Grouped source ∧ result.Groups power cursor.items after
  unary {cursor after : Cursor} {token : Token} {operator : UnaryOperator}
    {result : ParsedExpression} (power : Nat)
    (parsed : unary bound operator token.span cursor = .ok (result, after))
    (kind : token.kind = operator.word.kind)
    (suffix : .ok token :: cursor.items <:+ LexicalItem.scan source)
    (grouped : cursor.Grouped source) :
    after.Grouped source ∧ result.Groups power (.ok token :: cursor.items) after
  listUntil {cursor after : Cursor} {nodes : List ExpressionRef} {close : Token}
    {closing : TokenKind} (parsed : listUntil bound closing cursor = .ok ((nodes, close), after))
    (inner : closing ≠ .endOfSource) (grouped : cursor.Grouped source) :
    after.Grouped source ∧ close.kind = closing ∧ ∃ (row : List Token) (trees : _),
      cursor.items = row.map .ok ++ .ok close :: after.items ∧
        ExpressionTree.AllAt after.script trees nodes after.script.expressions.size ∧
        (Grouping.list trees).Of row
  suffixOf {cursor after : Cursor} {left result : ParsedExpression} {origin : List LexicalItem}
    {power : Nat} (parsed : suffixOf bound left cursor = .ok (result, after))
    (opens : cursor.leftPower = suffixPower) (le : power ≤ suffixPower)
    (suffix : origin <:+ LexicalItem.scan source) (grouped : cursor.Grouped source)
    (before : left.Groups power origin cursor) :
    after.Grouped source ∧ result.Groups power origin after
  expressionFrom {cursor after : Cursor} {result : ParsedExpression} {power : Nat}
    (parsed : expressionFrom bound power cursor = .ok (result, after))
    (grouped : cursor.Grouped source) :
    after.Grouped source ∧ result.Groups power cursor.items after ∧ after.Stops power
  continued {cursor after : Cursor} {left result : ParsedExpression} {origin : List LexicalItem}
    {power : Nat} (parsed : continued bound power left cursor = .ok (result, after))
    (suffix : origin <:+ LexicalItem.scan source) (grouped : cursor.Grouped source)
    (before : left.Groups power origin cursor) :
    after.Grouped source ∧ result.Groups power origin after ∧ after.Stops power

private theorem groups_literal {value : Value} (same : token.literal = value)
    (literal : token.kind.isLiteral = true)
    (parsed : Parse.literal value token.span middle = .ok (result, after))
    (items : cursor.items = .ok token :: middle.items)
    (suffix : cursor.items <:+ LexicalItem.scan source) (grouped : middle.Grouped source) :
    after.Grouped source ∧ result.Groups power cursor.items after := by
  obtain ⟨node, last, pushed, finished⟩ := bind_ok parsed
  cases finished
  subst same
  exact groups_pushed grouped suffix [token] items pushed (.constant token.literal token.span) rfl
    (.literal literal) none

private theorem groups_operand {bound : Nat} (ih : GroupsExpressions source bound) (power : Nat)
    (parsed : operand (bound + 1) cursor = .ok (result, after)) (before : cursor.Grouped source) :
    after.Grouped source ∧ result.Groups power cursor.items after := by
  simp only [operand] at parsed
  obtain ⟨token, first, tokenRead, parsed⟩ := bind_ok parsed
  have taken := grouped_next before tokenRead
  generalize kindIs : token.kind = kind at parsed taken
  split at parsed
  · exact (refuse_ok parsed).elim
  iterate 5
    obtain ⟨items, _, grouped⟩ := taken (by decide)
    refine groups_literal ?_ (by rw [kindIs]; rfl) parsed items before.items grouped
    rw [Token.literal, kindIs]
  · obtain ⟨node, middle, pushed, finished⟩ := bind_ok parsed
    obtain ⟨items, _, grouped⟩ := taken (by decide)
    cases finished
    exact groups_pushed grouped before.items [token] items pushed
      (.name token.lexeme token.span) rfl (.name kindIs) _
  iterate 2
    obtain ⟨items, _, grouped⟩ := taken (by decide)
    rw [items]
    exact ih.unary power parsed kindIs (items ▸ before.items) grouped
  · obtain ⟨inner, second, innerParsed, parsed⟩ := bind_ok parsed
    obtain ⟨close, third, closeRead, finished⟩ := bind_ok parsed
    obtain ⟨items, _, grouped⟩ := taken (by decide)
    obtain ⟨innerGrouped, ⟨row, tree, innerItems, treeAt, grouping⟩, stops⟩ :=
      ih.expressionFrom innerParsed grouped
    obtain ⟨closeKind, closeItems, kept, closed⟩ :=
      grouped_expect innerGrouped closeRead (by decide)
    rw [stops.eq_zero] at grouping
    rw [← kept] at treeAt
    cases finished
    refine ⟨closed, token :: (row ++ [close]), tree, ?_, treeAt,
      .enclosed kindIs grouping closeKind⟩
    rw [items, innerItems, closeItems]
    simp
  · obtain ⟨⟨elements, close⟩, second, listParsed, parsed⟩ := bind_ok parsed
    obtain ⟨node, third, pushed, finished⟩ := bind_ok parsed
    obtain ⟨items, _, grouped⟩ := taken (by decide)
    obtain ⟨listGrouped, closeKind, row, trees, listItems, treesAt, grouping⟩ :=
      ih.listUntil listParsed (by decide) grouped
    cases finished
    exact groups_pushed listGrouped before.items (token :: (row ++ [close]))
      (by rw [items, listItems]; simp) pushed
      (.array trees (token.span.merge close.span)) ⟨elements, rfl, treesAt⟩
      (.array kindIs grouping closeKind) none
  · exact (refuse_ok parsed).elim

private theorem groups_unary {bound : Nat} (ih : GroupsExpressions source bound)
    {operator : UnaryOperator} (power : Nat)
    (parsed : unary (bound + 1) operator token.span cursor = .ok (result, after))
    (kind : token.kind = operator.word.kind)
    (suffix : .ok token :: cursor.items <:+ LexicalItem.scan source)
    (before : cursor.Grouped source) :
    after.Grouped source ∧ result.Groups power (.ok token :: cursor.items) after := by
  simp only [unary] at parsed
  obtain ⟨inner, middle, innerParsed, parsed⟩ := bind_ok parsed
  obtain ⟨node, last, pushed, finished⟩ := bind_ok parsed
  obtain ⟨grouped, ⟨row, tree, items, treeAt, grouping⟩, stops⟩ :=
    ih.expressionFrom innerParsed before
  rw [operator.bindingPower_eq] at grouping stops
  have positive : 0 < operator.level := by cases operator <;> decide
  have below : middle.leftPower < operator.level := stops.elim (· ▸ positive) id
  cases finished
  exact groups_pushed grouped suffix (token :: row) (by rw [items]; rfl) pushed
    (.unary operator tree (token.span.merge inner.span)) ⟨inner.node, rfl, treeAt⟩
    (.unary operator kind below grouping) none

private theorem groups_listUntil {bound : Nat} (ih : GroupsExpressions source bound)
    {nodes : List ExpressionRef} {close : Token} {closing : TokenKind}
    (parsed : listUntil (bound + 1) closing cursor = .ok ((nodes, close), after))
    (inner : closing ≠ .endOfSource) (before : cursor.Grouped source) :
    after.Grouped source ∧ close.kind = closing ∧ ∃ (row : List Token) (trees : _),
      cursor.items = row.map .ok ++ .ok close :: after.items ∧
        ExpressionTree.AllAt after.script trees nodes after.script.expressions.size ∧
        (Grouping.list trees).Of row := by
  simp only [listUntil] at parsed
  obtain ⟨closed, first, closedRead, parsed⟩ := bind_ok parsed
  rcases accept?_ok closedRead with ⟨rfl, rfl⟩ | ⟨token, rfl, same, peeked, skipped⟩
  · obtain ⟨item, second, itemParsed, parsed⟩ := bind_ok parsed
    obtain ⟨more, third, moreRead, parsed⟩ := bind_ok parsed
    obtain ⟨grouped, ⟨row, tree, items, treeAt, grouping⟩, stops⟩ :=
      ih.expressionFrom itemParsed before
    rw [stops.eq_zero] at grouping
    unfold accept at moreRead
    rw [map_eq_pure_bind] at moreRead
    obtain ⟨comma?, middle, commaRead, finished⟩ := bind_ok moreRead
    cases finished
    rcases accept?_ok commaRead with ⟨rfl, rfl⟩ | ⟨comma, rfl, commaKind, peeked, skipped⟩
    · obtain ⟨last, fourth, lastRead, finished⟩ := bind_ok parsed
      obtain ⟨closeKind, closeItems, kept, closeGrouped⟩ := grouped_expect grouped lastRead inner
      rw [← kept] at treeAt
      cases finished
      refine ⟨closeGrouped, closeKind, row, [tree], ?_, ⟨⟨treeAt.present, treeAt⟩, trivial⟩,
        .last grouping⟩
      rw [items, closeItems]
    · obtain ⟨⟨others, last⟩, fourth, restParsed, finished⟩ := bind_ok parsed
      obtain ⟨commaItems, kept, separated⟩ :=
        grouped_skip grouped peeked skipped (by rw [commaKind]; decide)
      obtain ⟨restGrouped, closeKind, back, trees, restItems, treesAt, restGrouping⟩ :=
        ih.listUntil restParsed inner separated
      have grown := ((rootsExpressions bound).listUntil _ _ _ _ restParsed trivial).1.expressions
      rw [← kept] at treeAt
      have later := treeAt.grow grown
      cases finished
      refine ⟨restGrouped, closeKind, row ++ comma :: back, tree :: trees, ?_,
        ⟨⟨later.present, later⟩, treesAt⟩, .more grouping commaKind restGrouping⟩
      rw [items, commaItems, restItems]
      simp
  · obtain ⟨items, _, grouped⟩ := grouped_skip before peeked skipped (same ▸ inner)
    cases parsed
    exact ⟨grouped, same, [], [], items, trivial, .nothing⟩

private theorem groups_suffixOf {bound : Nat} (ih : GroupsExpressions source bound)
    {left : ParsedExpression} (parsed : suffixOf (bound + 1) left cursor = .ok (result, after))
    (opens : cursor.leftPower = suffixPower) (le : power ≤ suffixPower)
    (suffix : origin <:+ LexicalItem.scan source) (grouped : cursor.Grouped source)
    (before : left.Groups power origin cursor) :
    after.Grouped source ∧ result.Groups power origin after := by
  obtain ⟨row, tree, begun, treeAt, grouping⟩ := before
  rw [opens] at grouping
  simp only [suffixOf] at parsed
  obtain ⟨token, first, tokenRead, parsed⟩ := bind_ok parsed
  have kinds := TokenKind.of_leftPower ((leftPower_of_peek (next_ok tokenRead).1).symm.trans opens)
  have inner : token.kind ≠ .endOfSource := by
    intro ends
    rcases kinds with kind | kind | kind <;> cases ends.symm.trans kind
  obtain ⟨opened, kept, firstGrouped⟩ := grouped_next grouped tokenRead inner
  rw [← kept] at treeAt
  rcases kinds with kindIs | kindIs | kindIs
  · rw [kindIs] at parsed
    obtain ⟨⟨arguments, close⟩, second, listParsed, parsed⟩ := bind_ok parsed
    obtain ⟨node, third, pushed, finished⟩ := bind_ok parsed
    obtain ⟨listGrouped, closeKind, inside, trees, items, treesAt, listGrouping⟩ :=
      ih.listUntil listParsed (by decide) firstGrouped
    have grown := ((rootsExpressions bound).listUntil _ _ _ _ listParsed trivial).1.expressions
    cases finished
    exact groups_pushed listGrouped suffix (row ++ token :: (inside ++ [close]))
      (by rw [begun, opened, items]; simp) pushed
      (.call tree trees (left.span.merge close.span))
      ⟨left.node, arguments, rfl, treeAt.grow grown, treesAt⟩
      (.call le grouping kindIs listGrouping closeKind) none
  · rw [kindIs] at parsed
    obtain ⟨index, second, indexParsed, parsed⟩ := bind_ok parsed
    obtain ⟨close, third, closeRead, parsed⟩ := bind_ok parsed
    obtain ⟨node, fourth, pushed, finished⟩ := bind_ok parsed
    obtain ⟨indexGrouped, ⟨inside, indexTree, items, indexAt, indexGrouping⟩, stops⟩ :=
      ih.expressionFrom indexParsed firstGrouped
    obtain ⟨closeKind, closeItems, keptClose, closeGrouped⟩ :=
      grouped_expect indexGrouped closeRead (by decide)
    have grown :=
      ((rootsExpressions bound).expressionFrom _ _ _ _ indexParsed trivial).1.expressions
    have objectAt := treeAt.grow grown
    rw [← keptClose] at objectAt indexAt
    rw [stops.eq_zero] at indexGrouping
    cases finished
    exact groups_pushed closeGrouped suffix (row ++ token :: (inside ++ [close]))
      (by rw [begun, opened, items, closeItems]; simp) pushed
      (.element tree indexTree (left.span.merge close.span))
      ⟨left.node, index.node, rfl, objectAt, indexAt⟩
      (.element le grouping kindIs indexGrouping closeKind) _
  · rw [kindIs] at parsed
    obtain ⟨⟨memberName, memberSpan⟩, second, nameRead, parsed⟩ := bind_ok parsed
    obtain ⟨member, third, memberPushed, parsed⟩ := bind_ok parsed
    obtain ⟨node, fourth, pushed, finished⟩ := bind_ok parsed
    obtain ⟨name, last, taken, named⟩ := bind_ok nameRead
    obtain ⟨nameKind, nameItems, keptName, nameGrouped⟩ :=
      grouped_expect firstGrouped taken (by decide)
    cases named
    rw [← keptName] at treeAt
    -- The name of the member is a node of its own.
    obtain ⟨memberGrouped, _⟩ := groups_pushed nameGrouped firstGrouped.items [name] nameItems
      memberPushed (.name name.lexeme name.span) rfl
      (.name nameKind : (Grouping.expression 0 _ _ _).Of [name]) none
    have builtName : (ExpressionTree.name name.lexeme name.span).BuiltFrom second.script _ := rfl
    obtain ⟨memberFound, grown, memberItems⟩ := built_pushExpression memberPushed builtName
    cases finished
    exact groups_pushed memberGrouped suffix (row ++ [token, name])
      (by rw [begun, opened, nameItems, memberItems]; simp) pushed
      (.member tree name.lexeme name.span (left.span.merge name.span))
      ⟨left.node, member, rfl, treeAt.grow grown, memberFound⟩
      (.member le grouping kindIs nameKind) _

private theorem groups_continued {bound : Nat} (ih : GroupsExpressions source bound)
    {left : ParsedExpression}
    (parsed : continued (bound + 1) power left cursor = .ok (result, after))
    (suffix : origin <:+ LexicalItem.scan source) (grouped : cursor.Grouped source)
    (before : left.Groups power origin cursor) :
    after.Grouped source ∧ result.Groups power origin after ∧ after.Stops power := by
  simp only [continued] at parsed
  obtain ⟨token, first, tokenRead, parsed⟩ := bind_ok parsed
  have binds := leftPower_of_peek tokenRead
  obtain ⟨rfl, _⟩ := peek_ok tokenRead
  generalize kindIs : token.kind = kind at parsed binds
  split at parsed
  iterate 3
    split at parsed
    · next below =>
        cases parsed
        exact ⟨grouped, before, .inr (binds ▸ below)⟩
    · next high =>
        obtain ⟨extended, second, extendedParsed, parsed⟩ := bind_ok parsed
        obtain ⟨extendedGrouped, groups⟩ :=
          ih.suffixOf extendedParsed binds (Nat.not_lt.mp high) suffix grouped before
        exact ih.continued parsed suffix extendedGrouped groups
  · cases found : MiddleOperator.ofKind? _ with
    | none =>
        rw [found] at parsed
        cases parsed
        have none := TokenKind.leftPower_of_other ‹_› ‹_› ‹_› found
        exact ⟨grouped, before, .inl (binds.trans none)⟩
    | some operator =>
        rw [found] at parsed
        dsimp only at parsed
        have level := binds.trans (TokenKind.leftPower_of_ofKind? found)
        rw [operator.bindingPower_eq] at parsed
        split at parsed
        · next below =>
            cases parsed
            exact ⟨grouped, before, .inr (level ▸ below)⟩
        · next high =>
            obtain ⟨_, second, skipped, parsed⟩ := bind_ok parsed
            obtain ⟨right, third, rightParsed, parsed⟩ := bind_ok parsed
            obtain ⟨node, fourth, pushed, parsed⟩ := bind_ok parsed
            obtain ⟨row, tree, begun, treeAt, grouping⟩ := before
            have operatorKind := operator.kind_of_ofKind? found
            obtain ⟨items, kept, secondGrouped⟩ := grouped_skip grouped tokenRead skipped (by
              rw [kindIs, ← operatorKind]
              cases operator with
              | binary operator => cases operator <;> decide
              | logical operator => cases operator <;> decide)
            obtain ⟨rightGrouped, ⟨back, rightTree, rightItems, rightAt, rightGrouping⟩, stops⟩ :=
              ih.expressionFrom rightParsed secondGrouped
            have grown :=
              ((rootsExpressions bound).expressionFrom _ _ _ _ rightParsed trivial).1.expressions
            rw [← kept] at treeAt
            rw [level] at grouping
            have behind : third.leftPower ≤ operator.level :=
              stops.elim (fun none => none ▸ Nat.zero_le _) Nat.le_of_lt_succ
            have whole := Grouping.Of.middle operator (Nat.not_lt.mp high) behind grouping
              (kindIs.trans operatorKind.symm) rightGrouping
            obtain ⟨pushedGrouped, groups⟩ := groups_pushed rightGrouped suffix
              (row ++ token :: back) (by rw [begun, items, rightItems]; simp) pushed
              _ (operator.built_tree (treeAt.grow grown) rightAt (left.span.merge right.span))
              (by rwa [operator.span_tree]) none
            rw [operator.span_tree] at groups
            exact ih.continued parsed suffix pushedGrouped groups

theorem groupsExpressions (source : String) (bound : Nat) : GroupsExpressions source bound := by
  induction bound with
  | zero =>
      refine ⟨fun _ parsed => ?_, fun _ parsed => ?_, fun parsed => ?_, fun parsed => ?_,
        fun parsed => ?_, fun parsed => ?_⟩
      all_goals cases parsed
  | succ bound ih =>
      refine ⟨groups_operand ih, groups_unary ih, groups_listUntil ih, groups_suffixOf ih, ?_,
        groups_continued ih⟩
      intro cursor after result power parsed before
      simp only [expressionFrom] at parsed
      obtain ⟨left, middle, leftParsed, parsed⟩ := bind_ok parsed
      obtain ⟨grouped, groups⟩ := ih.operand power leftParsed before
      exact ih.continued parsed before.items grouped groups

end Parse

/-!
## Scripts
-/

theorem Cursor.Step.grouped {source : String} {cursor after : Cursor} (step : cursor.Step after)
    (grouped : cursor.Grouped source) : after.Grouped source := by
  cases step with
  | @drop item next rest script =>
      refine ⟨(List.suffix_cons item _).trans grouped.items, ?_, grouped.script⟩
      have closed : LexicalItem.Closed (item :: next :: rest) := grouped.closed
      cases closed with
      | item _ closed => exact closed
  | expression parsed => exact ((Parse.groupsExpressions source _).expressionFrom parsed grouped).1
  | statement node => exact ⟨grouped.items, grouped.closed, grouped.script.grow rfl⟩
  | link sequence =>
      exact ⟨grouped.items, grouped.closed,
        grouped.script.grow (Script.link_expressions _ sequence)⟩

theorem Cursor.Grouped.run {source : String} {cursor after : Cursor}
    (grouped : cursor.Grouped source) (steps : Relation.ReflTransGen Cursor.Step cursor after) :
    after.Grouped source := by
  induction steps with
  | refl => exact grouped
  | tail _ step ih => exact step.grouped ih

theorem Cursor.grouped_ofSource (source : String) : (Cursor.ofSource source).Grouped source where
  items := List.suffix_rfl
  closed := LexicalItem.closed_scanFrom 0 0 0 source.toList
  script reference expression found := by simp [ofSource, Script.empty, Script.expression?] at found

theorem Cursor.ReachedIn.grouped {source : String} {cursor : Cursor}
    (reached : Cursor.ReachedIn source cursor) : cursor.Grouped source := by
  induction reached with
  | start => exact Cursor.grouped_ofSource source
  | @expression cursor after node _ taken ih =>
      obtain ⟨result, _, parsed⟩ := takeExpression_ok taken
      exact Cursor.Step.grouped (.expression parsed) ih

/-- Every expression of a script that the parser has built spells a tree that some tokens of
the source are grouped to. -/
theorem Script.ReadFrom.grouped {source : String} {script : Script}
    (read : script.ReadFrom source) : script.Grouped source := by
  cases read with
  | building reached => exact reached.grouped.script
  | @finished cursor script reached finished =>
      obtain ⟨after, parsed⟩ := Cursor.finish_ok finished
      obtain ⟨last, first, steps, rfl⟩ := Parse.program_proceeds parsed
      exact (Cursor.Grouped.run reached.grouped steps).script.grow rfl

end ScriptEngine
