import Mathlib
import ScriptEngine.Proofs.Grammar.Reading
import ScriptEngine.Proofs.Script.Pushed
import ScriptEngine.Proofs.Token.Spaced

/-!
# Reading printed expressions back

The words of a printed expression are read as the expression that was printed. A
token ends an expression unless it is an operator that binds it; so the token
behind the words must bind no stronger than the level that they were printed for.
Reading an expression and going on behind it is then the same as going on with the
tree of the term as the left operand, and a token costs four calls at the most.
-/

set_option autoImplicit false

namespace ScriptEngine

/-- The power with which a token takes what stands before it as its operand, or zero
if it never does. -/
def TokenKind.leftPower : TokenKind → Nat
  | .leftParenthesis | .leftBracket | .dot => suffixPower
  | kind =>
      match MiddleOperator.ofKind? kind with
      | some operator => operator.bindingPower
      | none => 0

theorem UnaryOperator.bindingPower_eq (operator : UnaryOperator) :
    operator.bindingPower = operator.level := by
  cases operator <;> rfl

theorem MiddleOperator.bindingPower_eq (operator : MiddleOperator) :
    operator.bindingPower = operator.level := by
  cases operator with
  | binary operator => cases operator <;> rfl
  | logical operator => cases operator <;> rfl

theorem MiddleOperator.ofKind?_word (operator : MiddleOperator) :
    MiddleOperator.ofKind? operator.word.kind = some operator := by
  cases operator with
  | binary operator => cases operator <;> rfl
  | logical operator => cases operator <;> rfl

theorem MiddleOperator.level_pos (operator : MiddleOperator) : 0 < operator.level := by
  cases operator with
  | binary operator => cases operator <;> decide
  | logical operator => cases operator <;> decide

theorem MiddleOperator.level_lt_suffixPower (operator : MiddleOperator) :
    operator.level < suffixPower := by
  cases operator with
  | binary operator => cases operator <;> decide
  | logical operator => cases operator <;> decide

/-- A token whose word is printed for a value stands for the value. -/
theorem LiteralPrinted.of_token {value : Value} {token : Token}
    (printed : LiteralPrinted value token.word) :
    token.kind.isLiteral = true ∧ token.literal = value := by
  generalize same : token.word = word at printed
  have kind : token.kind = word.kind := congrArg Word.kind same
  have lexeme : token.lexeme = word.lexeme := congrArg Word.lexeme same
  rw [Token.literal, kind]
  cases printed with
  | number numeral found =>
      exact ⟨rfl, congrArg Value.number (by simp [Token.number, lexeme, Word.number, found])⟩
  | text quoted =>
      have value := TextLiteral.value_escape quoted
      exact ⟨rfl, congrArg Value.text (by rw [Token.text, lexeme, Word.text, value])⟩
  | trueWord | falseWord | noneWord => exact ⟨rfl, rfl⟩

/-- The tree of an operator between two operands. -/
def MiddleOperator.tree (operator : MiddleOperator) (left right : ExpressionTree) (span : Span) :
    ExpressionTree :=
  match operator with
  | binary operator => .binary operator left right span
  | logical operator => .shortCircuit operator left right span

theorem MiddleOperator.term_tree (operator : MiddleOperator) (left right : ExpressionTree)
    (span : Span) :
    (operator.tree left right span).term = .middle operator left.term right.term := by
  cases operator <;> rfl

theorem MiddleOperator.built_tree {script : Script} (operator : MiddleOperator)
    {left right : ExpressionRef} {leftTree rightTree : ExpressionTree}
    (leftAt : leftTree.At script left) (rightAt : rightTree.At script right) (span : Span) :
    (operator.tree leftTree rightTree span).BuiltFrom script (operator.node left right span) := by
  cases operator <;> exact ⟨left, right, rfl, leftAt, rightAt⟩

theorem TokenKind.leftPower_of_ofKind? {kind : TokenKind} {operator : MiddleOperator}
    (found : MiddleOperator.ofKind? kind = some operator) : kind.leftPower = operator.level := by
  rw [← operator.bindingPower_eq]
  cases kind <;> cases found <;> rfl

theorem TokenKind.leftPower_ne_level (kind : TokenKind) (operator : UnaryOperator) :
    kind.leftPower ≠ operator.level := by
  cases operator <;> cases kind <;> decide

namespace Parse

variable {α β : Type}

/-!
## The token behind an expression
-/

theorem continued_stops {bound power : Nat} {left : ParsedExpression} {token : Token}
    (stops : token.kind.leftPower = 0 ∨ token.kind.leftPower < power) (rest : List Token)
    (script : Script) :
    continued (bound + 1) power left (.reading (token :: rest) script) =
      .ok (left, .reading (token :: rest) script) := by
  rw [continued, bind_of_ok (peek_reading ..)]
  generalize token.kind = kind at stops
  have held (suffix : kind.leftPower = suffixPower) : suffixPower < power := by
    rcases stops with none | below
    · cases suffix.symm.trans none
    · exact suffix ▸ below
  split
  · rw [if_pos (held rfl)]
    rfl
  · rw [if_pos (held rfl)]
    rfl
  · rw [if_pos (held rfl)]
    rfl
  · cases found : MiddleOperator.ofKind? kind with
    | none => rfl
    | some operator =>
        have power := TokenKind.leftPower_of_ofKind? found
        have positive := operator.level_pos
        dsimp only
        rw [operator.bindingPower_eq, if_pos (by omega)]
        rfl

theorem continued_suffix {bound power : Nat} {left : ParsedExpression} {token : Token}
    (suffix : token.kind.leftPower = suffixPower) (le : power ≤ suffixPower) (rest : List Token)
    (script : Script) :
    continued (bound + 1) power left (.reading (token :: rest) script) =
      (suffixOf bound left >>= continued bound power) (.reading (token :: rest) script) := by
  rw [continued, bind_of_ok (peek_reading ..)]
  generalize token.kind = kind at suffix
  cases kind
  case leftParenthesis | leftBracket | dot => simp only [Nat.not_lt.mpr le, if_false]
  all_goals exact absurd suffix (by decide)

theorem continued_middle {bound power : Nat} {left : ParsedExpression} {token : Token}
    {operator : MiddleOperator} (same : token.kind = operator.word.kind)
    (le : power ≤ operator.level) {rest : List Token} (more : rest ≠ []) (script : Script) :
    continued (bound + 1) power left (.reading (token :: rest) script) =
      (do
        let right ← expressionFrom bound (operator.level + 1)
        let node ← pushExpression
          (operator.node left.node right.node (left.span.merge right.span))
        continued bound power ⟨node, left.span.merge right.span, none⟩)
        (.reading rest script) := by
  have found := operator.ofKind?_word
  rw [continued, bind_of_ok (peek_reading ..), same]
  generalize operator.word.kind = kind at found
  split
  · cases found
  · cases found
  · cases found
  · rw [found]
    dsimp only
    rw [operator.bindingPower_eq, if_neg (Nat.not_lt.mpr le),
      bind_of_ok (skip_reading token more script)]

/-!
## Reading on behind an expression
-/

/-- The tokens in front are read as the term, which becomes the left operand of what
is behind them. -/
def Leads (power : Nat) (tokens rest : List Token) (script : Script) (term : Term) : Prop :=
  ∃ left grown tree, script.Extends grown ∧ ExpressionTree.At grown tree left.node ∧
    tree.term = term ∧ ∀ bound, 4 * tokens.length < bound →
      ∃ further, bound ≤ further + 4 * tokens.length ∧
        expressionFrom bound power (.reading (tokens ++ rest) script) =
          continued further power left (.reading rest grown)

variable {power : Nat} {tokens rest : List Token} {script : Script} {term : Term}

theorem Leads.of_operand (left : ParsedExpression) {grown : Script}
    {tree : ExpressionTree} (extended : script.Extends grown) (spelled : tree.At grown left.node)
    (nonempty : 0 < tokens.length)
    (reads : ∀ bound, 4 * tokens.length ≤ bound + 1 →
      operand bound (.reading (tokens ++ rest) script) = .ok (left, .reading rest grown)) :
    Leads power tokens rest script tree.term := by
  refine ⟨left, grown, tree, extended, spelled, rfl, fun bound enough => ?_⟩
  obtain ⟨further, rfl⟩ : ∃ further, bound = further + 1 := ⟨bound - 1, by omega⟩
  refine ⟨further, by omega, ?_⟩
  rw [expressionFrom, bind_of_ok (reads further (by omega))]

theorem Leads.stops {following : Token}
    (leads : Leads power tokens (following :: rest) script term)
    (stops : following.kind.leftPower = 0 ∨ following.kind.leftPower < power) :
    ∃ parsed grown tree, script.Extends grown ∧ ExpressionTree.At grown tree parsed.node ∧
      tree.term = term ∧ ∀ bound, 4 * tokens.length < bound →
        expressionFrom bound power (.reading (tokens ++ following :: rest) script) =
          .ok (parsed, .reading (following :: rest) grown) := by
  obtain ⟨parsed, grown, tree, extended, spelled, same, reads⟩ := leads
  refine ⟨parsed, grown, tree, extended, spelled, same, fun bound enough => ?_⟩
  obtain ⟨further, left, leads⟩ := reads bound enough
  obtain ⟨more, rfl⟩ : ∃ more, further = more + 1 := ⟨further - 1, by omega⟩
  rw [leads, continued_stops stops]

private theorem Leads.suffix {token : Token} {suffix : List Token} {object : Term}
    (leads : Leads power tokens (token :: suffix ++ rest) script object)
    (opens : token.kind.leftPower = suffixPower) (le : power ≤ suffixPower)
    (reads : ∀ (left : ParsedExpression) (grown : Script) (tree : ExpressionTree),
      tree.At grown left.node → tree.term = object →
      ∃ whole final, ∃ wholeTree : ExpressionTree, grown.Extends final ∧
        wholeTree.At final whole.node ∧ wholeTree.term = term ∧
        ∀ bound, 4 * (suffix.length + 1) ≤ bound + 1 →
          suffixOf bound left (.reading (token :: suffix ++ rest) grown) =
            .ok (whole, .reading rest final)) :
    Leads power (tokens ++ token :: suffix) rest script term := by
  obtain ⟨left, grown, tree, extended, spelled, same, leads⟩ := leads
  obtain ⟨whole, final, wholeTree, later, wholeSpelled, wholeSame, reads⟩ :=
    reads left grown tree spelled same
  refine ⟨whole, final, wholeTree, extended.trans later, wholeSpelled, wholeSame,
    fun bound enough => ?_⟩
  simp only [List.length_append, List.length_cons] at enough ⊢
  obtain ⟨further, few, begun⟩ := leads bound (by omega)
  obtain ⟨more, rfl⟩ : ∃ more, further = more + 1 := ⟨further - 1, by omega⟩
  refine ⟨more, by omega, ?_⟩
  rw [List.append_assoc, begun, List.cons_append, continued_suffix opens le,
    ← List.cons_append, bind_of_ok (reads more (by omega))]

/-!
## Every printed expression
-/

theorem operand_of_isLiteral {token : Token} (literal : token.kind.isLiteral = true)
    (more : rest ≠ []) (bound : Nat) (script : Script) :
    operand (bound + 1) (.reading (token :: rest) script) =
      Parse.literal token.literal token.span (.reading rest script) := by
  rw [operand, bind_of_ok (next_reading token more script), Token.literal]
  generalize token.kind = kind at literal
  cases kind
  case number | text | trueWord | falseWord | noneWord => rfl
  all_goals cases literal

theorem listUntil_item {closing : TokenKind} {token : Token}
    (other : token.kind ≠ closing) (bound : Nat) :
    listUntil (bound + 1) closing (.reading (token :: rest) script) =
      (do
        let item ← expressionFrom bound 0
        if ← accept .comma then
          let (items, close) ← listUntil bound closing
          return (item.node :: items, close)
        else
          let close ← expect closing
          return ([item.node], close)) (.reading (token :: rest) script) := by
  rw [listUntil, bind_of_ok (accept?_reading_other other rest script)]

/-- The tokens in front of a closing one are read as terms with commas between them. -/
def RowLeads (closing : TokenKind) (tokens : List Token) (close : Token) (rest : List Token)
    (script : Script) (terms : List Term) : Prop :=
  ∃ nodes grown trees, script.Extends grown ∧
    ExpressionTree.AllAt grown trees nodes grown.expressions.size ∧
    ExpressionTree.terms trees = terms ∧
    ∀ bound, 4 * tokens.length + 1 < bound →
      listUntil bound closing (.reading (tokens ++ close :: rest) script) =
        .ok ((nodes, close), .reading rest grown)

section Rows

variable {closing : TokenKind} {close : Token}

theorem RowLeads.nothing (same : close.kind = closing) (more : rest ≠ []) (script : Script) :
    RowLeads closing [] close rest script [] := by
  refine ⟨[], script, [], .refl script, trivial, rfl, fun bound enough => ?_⟩
  obtain ⟨bound, rfl⟩ : ∃ fewer, bound = fewer + 1 := ⟨bound - 1, by omega⟩
  rw [listUntil, List.nil_append, bind_of_ok (accept?_reading same more script)]
  rfl

theorem RowLeads.last (closes : closing = .rightParenthesis ∨ closing = .rightBracket)
    (same : close.kind = closing) (more : rest ≠ [])
    (starts : ∃ token back, tokens = token :: back ∧ token.kind ≠ closing)
    (leads : Leads 0 tokens (close :: rest) script term) :
    RowLeads closing tokens close rest script [term] := by
  have noPower : close.kind.leftPower = 0 := by
    rw [same]
    rcases closes with rfl | rfl <;> rfl
  have noComma : close.kind ≠ .comma := by
    rw [same]
    rcases closes with rfl | rfl <;> decide
  obtain ⟨parsed, grown, tree, extended, treeAt, sameTerm, reads⟩ := leads.stops (.inl noPower)
  refine ⟨[parsed.node], grown, [tree], extended, ⟨⟨treeAt.present, treeAt⟩, trivial⟩,
    by simp [ExpressionTree.terms, sameTerm], fun bound enough => ?_⟩
  obtain ⟨bound, rfl⟩ : ∃ fewer, bound = fewer + 1 := ⟨bound - 1, by omega⟩
  have read := reads bound (by omega)
  obtain ⟨token, back, rfl, other⟩ := starts
  rw [List.cons_append] at read ⊢
  rw [listUntil_item other, bind_of_ok read, accept_reading_other noComma,
    bind_of_ok (expect_reading same more grown)]
  rfl

theorem RowLeads.more {front back : List Token} {comma : Token} {terms : List Term}
    (commaKind : comma.kind = .comma)
    (starts : ∃ token others, front = token :: others ∧ token.kind ≠ closing)
    (leads : Leads 0 front (comma :: (back ++ close :: rest)) script term)
    (row : ∀ script, RowLeads closing back close rest script terms) :
    RowLeads closing (front ++ comma :: back) close rest script (term :: terms) := by
  have commaEnds : comma.kind.leftPower = 0 := by
    rw [commaKind]
    rfl
  obtain ⟨parsed, middle, tree, extended, treeAt, sameTerm, reads⟩ := leads.stops (.inl commaEnds)
  obtain ⟨nodes, grown, trees, later, treesAt, sameTerms, readsRest⟩ := row middle
  refine ⟨parsed.node :: nodes, grown, tree :: trees, extended.trans later,
    ⟨⟨Nat.lt_of_lt_of_le treeAt.present later.expressions.le, treeAt.grow later.expressions⟩,
      treesAt⟩,
    by simp [ExpressionTree.terms, sameTerm, sameTerms], fun bound enough => ?_⟩
  simp only [List.length_append, List.length_cons] at enough
  obtain ⟨bound, rfl⟩ : ∃ fewer, bound = fewer + 1 := ⟨bound - 1, by omega⟩
  have read := reads bound (by omega)
  obtain ⟨token, tail, rfl, other⟩ := starts
  simp only [List.append_assoc, List.cons_append] at read ⊢
  rw [listUntil_item other, bind_of_ok read, accept_reading commaKind (by simp),
    bind_of_ok (readsRest bound (by omega))]
  rfl

private theorem rowLeads (closes : closing = .rightParenthesis ∨ closing = .rightBracket)
    {elements : List (Term × List Word)}
    (printed : ∀ element ∈ elements, Printed 0 element.1 element.2)
    (leads : ∀ element ∈ elements, ∀ tokens : List Token, tokens.map Token.word = element.2 →
      ∀ (following : Token) (rest : List Token) (script : Script), following.kind.leftPower = 0 →
        Leads 0 tokens (following :: rest) script element.1)
    (same : close.kind = closing) (more : rest ≠ [])
    (spelled : tokens.map Token.word = Word.separated (elements.map Prod.snd)) (script : Script) :
    RowLeads closing tokens close rest script (elements.map Prod.fst) := by
  have noPower : close.kind.leftPower = 0 := by
    rw [same]
    rcases closes with rfl | rfl <;> rfl
  induction elements generalizing tokens script with
  | nil =>
      obtain rfl : tokens = [] := List.map_eq_nil_iff.mp spelled
      exact .nothing same more script
  | cons element others ih =>
      obtain ⟨first, behind, begins, noParenthesis, noBracket⟩ :=
        (printed element (by simp)).opens
      have starts {front : List Token} (front_spelled : front.map Token.word = element.2) :
          ∃ token back, front = token :: back ∧ token.kind ≠ closing := by
        rw [begins] at front_spelled
        obtain ⟨token, back, rfl, rfl, _⟩ := List.map_eq_cons_iff.mp front_spelled
        refine ⟨token, back, rfl, ?_⟩
        rcases closes with rfl | rfl
        · exact noParenthesis
        · exact noBracket
      cases others with
      | nil =>
          have spelled : tokens.map Token.word = element.2 := by
            simpa [Word.separated] using spelled
          exact .last closes same more (starts spelled)
            (leads element (by simp) tokens spelled close rest script noPower)
      | cons next others =>
          have parts : tokens.map Token.word = element.2 ++ Word.comma ::
              Word.separated ((next :: others).map Prod.snd) := by
            simpa [Word.separated] using spelled
          obtain ⟨front, behindFront, rfl, frontSpelled, behindSpelled⟩ :=
            List.map_eq_append_iff.mp parts
          obtain ⟨comma, back, rfl, isComma, backSpelled⟩ :=
            List.map_eq_cons_iff.mp behindSpelled
          have commaKind : comma.kind = .comma := congrArg Word.kind isComma
          refine .more commaKind (starts frontSpelled)
            (leads element (by simp) front frontSpelled comma _ script (by rw [commaKind]; rfl))
            fun script => ?_
          exact ih (fun other member => printed other (List.mem_cons_of_mem _ member))
            (fun other member => leads other (List.mem_cons_of_mem _ member)) backSpelled script

end Rows

/-!
## The forms of expressions
-/

theorem leads_enclosed {opened close : Token} (openKind : opened.kind = .leftParenthesis)
    (closeKind : close.kind = .rightParenthesis) (more : rest ≠ [])
    (inner : Leads 0 tokens (close :: rest) script term) :
    Leads power (opened :: tokens ++ [close]) rest script term := by
  have ends : close.kind.leftPower = 0 := by
    rw [closeKind]
    rfl
  obtain ⟨parsed, grown, tree, extended, treeAt, rfl, reads⟩ := inner.stops (.inl ends)
  refine Leads.of_operand ⟨parsed.node, opened.span.merge close.span, none⟩ extended treeAt
    (by simp) fun bound enough => ?_
  simp only [List.length_append, List.length_cons, List.length_nil] at enough
  obtain ⟨bound, rfl⟩ : ∃ fewer, bound = fewer + 1 := ⟨bound - 1, by omega⟩
  simp only [List.append_assoc, List.cons_append, List.nil_append]
  rw [operand, bind_of_ok (next_reading opened (by simp) script), openKind]
  dsimp only
  rw [bind_of_ok (reads bound (by omega)), bind_of_ok (expect_reading closeKind more grown)]
  rfl

theorem leads_literal {token : Token} (literal : token.kind.isLiteral = true) (more : rest ≠ []) :
    Leads power [token] rest script (.constant token.literal) := by
  have found := script.expression?_pushExpression (.constant token.literal token.span)
  refine Leads.of_operand ⟨_, token.span, none⟩ (script.extends_pushExpression _)
    (show ExpressionTree.At _ (.constant token.literal token.span) _ from found) (by simp)
    fun bound enough => ?_
  obtain ⟨bound, rfl⟩ : ∃ fewer, bound = fewer + 1 := ⟨bound - 1, by simp at enough; omega⟩
  rw [List.singleton_append, operand_of_isLiteral literal more]
  rfl

theorem leads_name {token : Token} (kind : token.kind = .identifier) (more : rest ≠ []) :
    Leads power [token] rest script (.name token.lexeme) := by
  have found := script.expression?_pushExpression (.name token.lexeme token.span)
  refine Leads.of_operand ⟨_, token.span, some (.name token.lexeme)⟩
    (script.extends_pushExpression _)
    (show ExpressionTree.At _ (.name token.lexeme token.span) _ from found) (by simp)
    fun bound enough => ?_
  obtain ⟨bound, rfl⟩ : ∃ fewer, bound = fewer + 1 := ⟨bound - 1, by simp at enough; omega⟩
  rw [List.singleton_append, operand, bind_of_ok (next_reading token more script), kind]
  rfl

theorem leads_unary {token following : Token} {operator : UnaryOperator}
    (kind : token.kind = operator.word.kind)
    (ends : following.kind.leftPower < operator.level)
    (leads : Leads operator.level tokens (following :: rest) script term) :
    Leads power (token :: tokens) (following :: rest) script (.unary operator term) := by
  obtain ⟨parsed, grown, tree, extended, treeAt, rfl, reads⟩ := leads.stops (.inr ends)
  have pushed := grown.extends_pushExpression
    (.unary operator parsed.node (token.span.merge parsed.span))
  have found := grown.expression?_pushExpression
    (.unary operator parsed.node (token.span.merge parsed.span))
  refine Leads.of_operand ⟨_, token.span.merge parsed.span, none⟩ (extended.trans pushed)
    (show ExpressionTree.At _ (.unary operator tree (token.span.merge parsed.span)) _ from
      ⟨parsed.node, found, treeAt.present, treeAt.grow pushed.expressions⟩) (by simp)
    fun bound enough => ?_
  simp only [List.length_cons] at enough
  obtain ⟨bound, rfl⟩ : ∃ fewer, bound = fewer + 2 := ⟨bound - 2, by omega⟩
  have begun : operand (bound + 2) (.reading (token :: tokens ++ following :: rest) script) =
      Parse.unary (bound + 1) operator token.span
        (.reading (tokens ++ following :: rest) script) := by
    rw [operand, List.cons_append, bind_of_ok (next_reading token (by simp) script), kind]
    cases operator <;> rfl
  rw [begun, Parse.unary, operator.bindingPower_eq, bind_of_ok (reads bound (by omega))]
  rfl

theorem leads_middle {token following : Token} {operator : MiddleOperator}
    {others : List Token} {right : Term} (kind : token.kind = operator.word.kind)
    (le : power ≤ operator.level) (ends : following.kind.leftPower < operator.level + 1)
    (left : Leads power tokens (token :: others ++ following :: rest) script term)
    (rightLeads : ∀ script,
      Leads (operator.level + 1) others (following :: rest) script right) :
    Leads power (tokens ++ token :: others) (following :: rest) script
      (.middle operator term right) := by
  obtain ⟨first, middle, leftTree, extended, leftAt, rfl, leads⟩ := left
  obtain ⟨second, grown, rightTree, later, rightAt, rfl, reads⟩ :=
    (rightLeads middle).stops (.inr ends)
  have built := operator.built_tree (leftAt.grow later.expressions) rightAt
    (first.span.merge second.span)
  refine ⟨⟨_, first.span.merge second.span, none⟩, _, _,
    (extended.trans later).trans (grown.extends_pushExpression _), built.push,
    operator.term_tree .., fun bound enough => ?_⟩
  simp only [List.length_append, List.length_cons] at enough ⊢
  obtain ⟨further, few, begun⟩ := leads bound (by omega)
  obtain ⟨more, rfl⟩ : ∃ more, further = more + 1 := ⟨further - 1, by omega⟩
  refine ⟨more, by omega, ?_⟩
  rw [List.append_assoc, begun, List.cons_append, continued_middle kind le (by simp) middle,
    bind_of_ok (reads more (by omega))]
  rfl

/-- A member access behind an expression, which an assignment can write to. -/
theorem suffixOf_member {dot token : Token} (dotKind : dot.kind = .dot)
    (kind : token.kind = .identifier) (more : rest ≠ []) (left : ParsedExpression) :
    ∃ whole final, script.Extends final ∧
      whole.target = some (.member left.node token.lexeme) ∧
      (∀ object : ExpressionTree, object.At script left.node →
        ∃ tree : ExpressionTree, tree.At final whole.node ∧
          tree.term = .member object.term token.lexeme) ∧
      ∀ bound, suffixOf (bound + 1) left (.reading (dot :: token :: rest) script) =
        .ok (whole, .reading rest final) := by
  have named := script.extends_pushExpression (.name token.lexeme token.span)
  have nameFound := script.expression?_pushExpression (.name token.lexeme token.span)
  generalize pushedName : script.pushExpression (.name token.lexeme token.span) = pair
    at named nameFound
  obtain ⟨member, middle⟩ := pair
  let span := left.span.merge token.span
  let pushed := middle.pushExpression (.member left.node member span)
  refine ⟨⟨pushed.1, span, some (.member left.node token.lexeme)⟩, pushed.2,
    named.trans (middle.extends_pushExpression _), rfl, fun object objectAt => ?_, fun bound => ?_⟩
  · have built : ExpressionTree.BuiltFrom middle (.member object token.lexeme token.span span)
        (.member left.node member span) :=
      ⟨left.node, member, rfl, objectAt.grow named.expressions, nameFound⟩
    exact ⟨_, built.push, rfl⟩
  · rw [suffixOf, bind_of_ok (next_reading dot (by simp) script), dotKind]
    dsimp only
    rw [bind_of_ok (name_reading kind more script)]
    dsimp only
    rw [bind_of_ok (pushExpression_reading pushedName rest)]
    rfl

/-- An index behind an expression, which an assignment can write to. -/
theorem suffixOf_element {opened close : Token} {inner : List Token} {index : Term}
    (openKind : opened.kind = .leftBracket) (closeKind : close.kind = .rightBracket)
    (more : rest ≠ []) (indexLeads : Leads 0 inner (close :: rest) script index)
    (left : ParsedExpression) :
    ∃ whole position final, script.Extends final ∧
      whole.target = some (.element left.node position) ∧
      (∃ tree : ExpressionTree, tree.At final position ∧ tree.term = index) ∧
      (∀ object : ExpressionTree, object.At script left.node →
        ∃ tree : ExpressionTree, tree.At final whole.node ∧
          tree.term = .element object.term index) ∧
      ∀ bound, 4 * inner.length < bound →
        suffixOf (bound + 1) left (.reading (opened :: (inner ++ close :: rest)) script) =
          .ok (whole, .reading rest final) := by
  have ends : close.kind.leftPower = 0 := by
    rw [closeKind]
    rfl
  obtain ⟨position, grown, indexTree, later, indexAt, rfl, reads⟩ := indexLeads.stops (.inl ends)
  let span := left.span.merge close.span
  let pushed := grown.pushExpression (.element left.node position.node span)
  have added : grown.Extends pushed.2 := grown.extends_pushExpression _
  refine ⟨⟨pushed.1, span, some (.element left.node position.node)⟩, position.node, pushed.2,
    later.trans added, rfl, ⟨indexTree, indexAt.grow added.expressions, rfl⟩,
    fun object objectAt => ?_, fun bound enough => ?_⟩
  · have built : ExpressionTree.BuiltFrom grown (.element object indexTree span)
        (.element left.node position.node span) :=
      ⟨left.node, position.node, rfl, objectAt.grow later.expressions, indexAt⟩
    exact ⟨_, built.push, rfl⟩
  · rw [suffixOf, bind_of_ok (next_reading opened (by simp) script), openKind]
    dsimp only
    rw [bind_of_ok (reads bound enough), bind_of_ok (expect_reading closeKind more grown)]
    rfl

theorem leads_member {dot token : Token} (dotKind : dot.kind = .dot)
    (kind : token.kind = .identifier) (le : power ≤ suffixPower) (more : rest ≠ [])
    (object : Leads power tokens (dot :: token :: rest) script term) :
    Leads power (tokens ++ [dot, token]) rest script (.member term token.lexeme) := by
  have opens : dot.kind.leftPower = suffixPower := by
    rw [dotKind]
    rfl
  refine Leads.suffix object opens le ?_
  rintro left grown tree leftAt rfl
  obtain ⟨whole, final, extended, _, spelled, reads⟩ := suffixOf_member dotKind kind more left
  obtain ⟨wholeTree, wholeAt, same⟩ := spelled tree leftAt
  refine ⟨whole, final, wholeTree, extended, wholeAt, same, fun bound enough => ?_⟩
  obtain ⟨bound, rfl⟩ : ∃ fewer, bound = fewer + 1 := ⟨bound - 1, by omega⟩
  exact reads bound

theorem leads_element {opened close : Token} {inner : List Token} {index : Term}
    (openKind : opened.kind = .leftBracket) (closeKind : close.kind = .rightBracket)
    (le : power ≤ suffixPower) (more : rest ≠ [])
    (object : Leads power tokens (opened :: (inner ++ [close]) ++ rest) script term)
    (indexLeads : ∀ script, Leads 0 inner (close :: rest) script index) :
    Leads power (tokens ++ opened :: (inner ++ [close])) rest script (.element term index) := by
  have opens : opened.kind.leftPower = suffixPower := by
    rw [openKind]
    rfl
  refine Leads.suffix object opens le ?_
  rintro left grown tree leftAt rfl
  obtain ⟨whole, _, final, extended, _, _, spelled, reads⟩ :=
    suffixOf_element openKind closeKind more (indexLeads grown) left
  obtain ⟨wholeTree, wholeAt, same⟩ := spelled tree leftAt
  refine ⟨whole, final, wholeTree, extended, wholeAt, same, fun bound enough => ?_⟩
  simp only [List.length_append, List.length_cons, List.length_nil] at enough
  obtain ⟨bound, rfl⟩ : ∃ fewer, bound = fewer + 1 := ⟨bound - 1, by omega⟩
  simp only [List.append_assoc, List.cons_append, List.nil_append]
  exact reads bound (by omega)

theorem leads_array {opened close : Token} {terms : List Term}
    (openKind : opened.kind = .leftBracket)
    (row : RowLeads .rightBracket tokens close rest script terms) :
    Leads power (opened :: tokens ++ [close]) rest script (.array terms) := by
  obtain ⟨nodes, grown, trees, extended, treesAt, rfl, reads⟩ := row
  have pushed := grown.extends_pushExpression (.array nodes (opened.span.merge close.span))
  have found := grown.expression?_pushExpression (.array nodes (opened.span.merge close.span))
  refine Leads.of_operand ⟨_, opened.span.merge close.span, none⟩ (extended.trans pushed)
    (show ExpressionTree.At _ (.array trees (opened.span.merge close.span)) _ from
      ⟨nodes, found, treesAt.grow pushed.expressions⟩) (by simp) fun bound enough => ?_
  simp only [List.length_append, List.length_cons, List.length_nil] at enough
  obtain ⟨bound, rfl⟩ : ∃ fewer, bound = fewer + 1 := ⟨bound - 1, by omega⟩
  simp only [List.append_assoc, List.cons_append, List.nil_append]
  rw [operand, bind_of_ok (next_reading opened (by simp) script), openKind]
  dsimp only
  rw [bind_of_ok (reads bound (by omega))]
  rfl

theorem leads_call {opened close : Token} {inner : List Token} {terms : List Term}
    (openKind : opened.kind = .leftParenthesis) (le : power ≤ suffixPower)
    (callee : Leads power tokens (opened :: (inner ++ [close]) ++ rest) script term)
    (row : ∀ script, RowLeads .rightParenthesis inner close rest script terms) :
    Leads power (tokens ++ opened :: (inner ++ [close])) rest script (.call term terms) := by
  have opens : opened.kind.leftPower = suffixPower := by
    rw [openKind]
    rfl
  refine Leads.suffix callee opens le ?_
  rintro left middle tree leftAt rfl
  obtain ⟨nodes, grown, trees, later, treesAt, rfl, reads⟩ := row middle
  have leftLater := leftAt.grow later.expressions
  have pushed := (grown.extends_pushExpression
    (.call left.node nodes (left.span.merge close.span))).expressions
  have found := grown.expression?_pushExpression
    (.call left.node nodes (left.span.merge close.span))
  refine ⟨⟨_, left.span.merge close.span, none⟩, _,
    .call tree trees (left.span.merge close.span),
    later.trans (grown.extends_pushExpression _),
    ⟨left.node, nodes, found, ⟨leftLater.present, leftLater.grow pushed⟩, treesAt.grow pushed⟩,
    rfl, fun bound enough => ?_⟩
  simp only [List.length_append, List.length_cons, List.length_nil] at enough
  obtain ⟨bound, rfl⟩ : ∃ fewer, bound = fewer + 1 := ⟨bound - 1, by omega⟩
  simp only [List.append_assoc, List.cons_append, List.nil_append]
  rw [suffixOf, bind_of_ok (next_reading opened (by simp) middle), openKind]
  dsimp only
  rw [bind_of_ok (reads bound (by omega))]
  rfl

end Parse

/-!
## Printed expressions
-/

open Parse

/-- Tokens with the words of a row between two others. -/
theorem Token.exists_enclosed {tokens : List Token} {opened close : Word} {words : List Word}
    (spelled : tokens.map Token.word = opened :: words ++ [close]) :
    ∃ first inner last, tokens = first :: (inner ++ [last]) ∧ first.word = opened ∧
      inner.map Token.word = words ∧ last.word = close := by
  rw [List.cons_append] at spelled
  obtain ⟨first, rest, rfl, isOpen, restSpelled⟩ := List.map_eq_cons_iff.mp spelled
  obtain ⟨inner, back, rfl, innerSpelled, backSpelled⟩ := List.map_eq_append_iff.mp restSpelled
  obtain ⟨last, rfl, isClose⟩ := List.map_eq_singleton_iff.mp backSpelled
  exact ⟨first, inner, last, rfl, isOpen, innerSpelled, isClose⟩

/-- Tokens with the words of a row and then those of a suffix in brackets. -/
theorem Token.exists_suffixed {tokens : List Token} {row words : List Word} {opened close : Word}
    (spelled : tokens.map Token.word = row ++ opened :: words ++ [close]) :
    ∃ front first inner last, tokens = front ++ first :: (inner ++ [last]) ∧
      front.map Token.word = row ∧ first.word = opened ∧ inner.map Token.word = words ∧
      last.word = close := by
  rw [List.append_assoc] at spelled
  obtain ⟨front, suffix, rfl, frontSpelled, suffixSpelled⟩ := List.map_eq_append_iff.mp spelled
  obtain ⟨first, inner, last, rfl, isOpen, innerSpelled, isClose⟩ :=
    Token.exists_enclosed suffixSpelled
  exact ⟨front, first, inner, last, rfl, frontSpelled, isOpen, innerSpelled, isClose⟩

/-- The words of a printed expression are read as its term, unless the token behind
them takes some of it. -/
theorem Printed.leads {required : Nat} {term : Term} {words : List Word}
    (printed : Printed required term words) {tokens : List Token}
    (spelled : tokens.map Token.word = words) {following : Token} {rest : List Token}
    (ends : following.kind.leftPower ≤ required) (script : Script) {power : Nat}
    (le : power ≤ required) : Leads power tokens (following :: rest) script term := by
  induction printed generalizing tokens following rest script power with
  | enclosed _ ih =>
      obtain ⟨opened, inner, close, rfl, isOpen, innerSpelled, isClose⟩ :=
        Token.exists_enclosed spelled
      have closeKind : close.kind = .rightParenthesis := congrArg Word.kind isClose
      have closes : close.kind.leftPower = 0 := by
        rw [closeKind]
        rfl
      exact leads_enclosed (congrArg Word.kind isOpen) closeKind (List.cons_ne_nil _ _)
        (ih innerSpelled (Nat.le_of_eq closes) script (Nat.le_refl 0))
  | constant literal =>
      obtain ⟨token, rfl, rfl⟩ := List.map_eq_singleton_iff.mp spelled
      obtain ⟨kind, rfl⟩ := literal.of_token
      exact leads_literal kind (List.cons_ne_nil _ _)
  | name identifier =>
      obtain ⟨token, rfl, isName⟩ := List.map_eq_singleton_iff.mp spelled
      obtain rfl : token.lexeme = _ := congrArg Word.lexeme isName
      exact leads_name (congrArg Word.kind isName) (List.cons_ne_nil _ _)
  | @unary _ operator _ _ high _ ih =>
      obtain ⟨token, inner, rfl, isOperator, innerSpelled⟩ := List.map_eq_cons_iff.mp spelled
      have below : following.kind.leftPower < operator.level :=
        Nat.lt_of_le_of_ne (Nat.le_trans ends high) (following.kind.leftPower_ne_level operator)
      exact leads_unary (congrArg Word.kind isOperator) below
        (ih innerSpelled (Nat.le_of_lt below) script (Nat.le_refl _))
  | @middle _ operator _ _ _ _ high _ _ leftIH rightIH =>
      obtain ⟨front, back, rfl, frontSpelled, backSpelled⟩ := List.map_eq_append_iff.mp spelled
      obtain ⟨token, others, rfl, isOperator, othersSpelled⟩ := List.map_eq_cons_iff.mp backSpelled
      have kind : token.kind = operator.word.kind := congrArg Word.kind isOperator
      have binds : token.kind.leftPower = operator.level := by
        rw [kind]
        exact TokenKind.leftPower_of_ofKind? operator.ofKind?_word
      have below : following.kind.leftPower < operator.level + 1 :=
        Nat.lt_succ_of_le (Nat.le_trans ends high)
      exact leads_middle kind (Nat.le_trans le high) below
        (leftIH frontSpelled (Nat.le_of_eq binds) script (Nat.le_trans le high))
        fun script => rightIH othersSpelled (Nat.le_of_lt below) script (Nat.le_refl _)
  | member high _ identifier ih =>
      obtain ⟨front, back, rfl, frontSpelled, backSpelled⟩ := List.map_eq_append_iff.mp spelled
      obtain ⟨dot, back, rfl, isDot, nameSpelled⟩ := List.map_eq_cons_iff.mp backSpelled
      obtain ⟨token, rfl, isName⟩ := List.map_eq_singleton_iff.mp nameSpelled
      obtain rfl : token.lexeme = _ := congrArg Word.lexeme isName
      have dotKind : dot.kind = .dot := congrArg Word.kind isDot
      have binds : dot.kind.leftPower = suffixLevel := by
        rw [dotKind]
        rfl
      exact leads_member dotKind (congrArg Word.kind isName) (Nat.le_trans le high)
        (List.cons_ne_nil _ _)
        (ih frontSpelled (Nat.le_of_eq binds) script (Nat.le_trans le high))
  | element high _ _ objectIH indexIH =>
      obtain ⟨front, opened, inner, close, rfl, frontSpelled, isOpen, innerSpelled, isClose⟩ :=
        Token.exists_suffixed spelled
      have openKind : opened.kind = .leftBracket := congrArg Word.kind isOpen
      have closeKind : close.kind = .rightBracket := congrArg Word.kind isClose
      have binds : opened.kind.leftPower = suffixLevel := by
        rw [openKind]
        rfl
      have closes : close.kind.leftPower = 0 := by
        rw [closeKind]
        rfl
      exact leads_element openKind closeKind (Nat.le_trans le high) (List.cons_ne_nil _ _)
        (objectIH frontSpelled (Nat.le_of_eq binds) script (Nat.le_trans le high))
        fun script => indexIH innerSpelled (Nat.le_of_eq closes) script (Nat.le_refl 0)
  | array printed ih =>
      obtain ⟨opened, inner, close, rfl, isOpen, innerSpelled, isClose⟩ :=
        Token.exists_enclosed spelled
      exact leads_array (congrArg Word.kind isOpen)
        (rowLeads (.inr rfl) printed
          (fun element member tokens spelled following rest script ends =>
            ih element member spelled (Nat.le_of_eq ends) script (Nat.le_refl 0))
          (congrArg Word.kind isClose) (List.cons_ne_nil _ _) innerSpelled script)
  | call high _ printed calleeIH ih =>
      obtain ⟨front, opened, inner, close, rfl, frontSpelled, isOpen, innerSpelled, isClose⟩ :=
        Token.exists_suffixed spelled
      have openKind : opened.kind = .leftParenthesis := congrArg Word.kind isOpen
      have binds : opened.kind.leftPower = suffixLevel := by
        rw [openKind]
        rfl
      exact leads_call openKind (Nat.le_trans le high)
        (calleeIH frontSpelled (Nat.le_of_eq binds) script (Nat.le_trans le high))
        (rowLeads (.inl rfl) printed
          (fun element member tokens spelled following rest script ends =>
            ih element member spelled (Nat.le_of_eq ends) script (Nat.le_refl 0))
          (congrArg Word.kind isClose) (List.cons_ne_nil _ _) innerSpelled)

/-!
## Whole sources
-/

/-- Taking an expression from the source gives a node that spells the term, and leaves
nothing but the end of the source. -/
def Term.ReadFrom (term : Term) (source : String) : Prop :=
  ∃ node after tree, (Cursor.ofSource source).takeExpression = .ok (node, after) ∧
    ExpressionTree.At after.script tree node ∧ tree.term = term ∧
    after.items = [.ok ⟨.endOfSource, "",
      Span.between (utf8Length source.toList) (utf8Length source.toList)⟩]

theorem Term.readFrom_of_leads {source : String} {tokens : List Token} {term : Term}
    (scanned : LexicalItem.scan source = tokens.map .ok ++ [.ok ⟨.endOfSource, "",
      Span.between (utf8Length source.toList) (utf8Length source.toList)⟩])
    (leads : ∀ last : Token, last.kind.leftPower = 0 →
      Leads 0 tokens [last] Script.empty term) : term.ReadFrom source := by
  generalize ended : (⟨.endOfSource, "",
    Span.between (utf8Length source.toList) (utf8Length source.toList)⟩ : Token) = last at scanned
  have ends : last.kind.leftPower = 0 := by
    rw [← ended]
    rfl
  obtain ⟨parsed, grown, tree, _, treeAt, same, reads⟩ := (leads last ends).stops (.inl ends)
  have begun : Cursor.ofSource source = .reading (tokens ++ [last]) Script.empty := by
    simp [Cursor.ofSource, scanned, Cursor.reading]
  have read : (Cursor.ofSource source).takeExpression =
      .ok (parsed.node, .reading [last] grown) := by
    rw [begun]
    unfold Cursor.takeExpression Cursor.parse Parse.expression
    rw [reads _ (by simp [Cursor.depthBound, Cursor.reading]; omega)]
    rfl
  exact ⟨parsed.node, _, tree, read, treeAt, same, by rw [ended]; rfl⟩

theorem Printed.readFrom {term : Term} {words : List Word} (printed : Printed 0 term words) :
    term.ReadFrom (Word.spaced words) := by
  have scanned := scan_spaced printed.stands
  rw [Word.scanned, Nat.zero_add] at scanned
  exact Term.readFrom_of_leads scanned fun last ends =>
    printed.leads (Word.map_word_placed 0 words) (Nat.le_of_eq ends) Script.empty (Nat.le_refl 0)

theorem Printed.unique {left right : Term} {words : List Word} (first : Printed 0 left words)
    (second : Printed 0 right words) : left = right := by
  obtain ⟨node, after, tree, taken, treeAt, rfl, _⟩ := first.readFrom
  obtain ⟨otherNode, otherAfter, otherTree, otherTaken, otherAt, rfl, _⟩ := second.readFrom
  rw [taken] at otherTaken
  cases otherTaken
  have same := (Script.expressionTree?_of_at treeAt).symm.trans
    (Script.expressionTree?_of_at otherAt)
  exact congrArg ExpressionTree.term (Option.some.inj same)

/-- A term is read back from its words, and from its words with more parentheses. -/
theorem Term.readFrom_printed (numeral : Float → List Char) {term : Term}
    (printable : term.Printable numeral) :
    Printed 0 term (term.words numeral 0) ∧
      ∀ words, Printed 0 term words → term.ReadFrom (Word.spaced words) :=
  ⟨printable.printed term 0, fun _ printed => printed.readFrom⟩

/-- Parentheses stand around `not` in front of a member and around a difference that is
multiplied, and nowhere else. -/
theorem Term.readFrom_product :
    ∃ (numeral : Float → List Char) (term : Term), term.Printable numeral ∧
      term.ReadFrom "- ( not a ) . b ( \"c\" , [ 1 ] ) [ d ] * ( e - f )" := by
  let one : Value := .number (DecimalText.nearest 1 0)
  let called : Term := .call (.member (.unary .not (.name "a")) "b")
    [.constant (.text "c"), .array [.constant one]]
  let product : Term := .middle (.binary .multiply) (.unary .minus (.element called (.name "d")))
    (.middle (.binary .subtract) (.name "e") (.name "f"))
  have printable : product.Printable fun _ => ['1'] := by
    have isName (name : String) (identifier : isIdentifier name = true) :
        (Term.name name).Printable fun _ => ['1'] := identifier
    exact ⟨⟨⟨⟨isName "a" rfl, rfl⟩, trivial, ⟨⟨rfl, rfl⟩, trivial⟩, trivial⟩, isName "d" rfl⟩,
      isName "e" rfl, isName "f" rfl⟩
  have printed := Term.readFrom_printed (fun _ => ['1']) printable
  have spelled : Word.spaced (product.words (fun _ => ['1']) 0) =
      "- ( not a ) . b ( \"c\" , [ 1 ] ) [ d ] * ( e - f )" := by cbv
  exact ⟨_, product, printable, spelled ▸ printed.2 _ printed.1⟩

end ScriptEngine
