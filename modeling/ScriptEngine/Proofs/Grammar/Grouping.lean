import Mathlib
import ScriptEngine.Proofs.Grammar.Derivation
import ScriptEngine.Proofs.Grammar.RoundTrip
import ScriptEngine.Proofs.Token.Passing

/-!
# How a row of tokens is grouped

The powers of the operators decide to which tree a row of tokens is grouped. That depends on
two places around the row: on the power that an operator must have to belong to it, and on the
power with which the token behind the row takes what stands before it. The first one bounds
the operators on the left spine of the tree, the second one those on its right spine.

A row is read as the tree that it is grouped to, wherever its tokens stand
(`Grouping.Of.leads`). Its brackets are balanced, and no line ends in it
(`Grouping.Of.balanced`).
-/

set_option autoImplicit false

namespace ScriptEngine

/-- A tree that a row of tokens is grouped to in some place, with the source that is read for
it, or trees with commas between them. In its place an expression goes on with operators of at
least `power`, and the token behind it takes what stands before it with the power `behind`. -/
inductive Grouping where
  | expression (power behind : Nat) (tree : ExpressionTree) (covered : Span)
  | list (trees : List ExpressionTree)

/-- The rows that are grouped so. Parentheses cover more than the tree inside of them does. -/
inductive Grouping.Of : Grouping → List Token → Prop where
  | enclosed {power behind : Nat} {opened close : Token} {inner : List Token}
      {tree : ExpressionTree} {covered : Span} :
      opened.kind = .leftParenthesis → Of (.expression 0 0 tree covered) inner →
      close.kind = .rightParenthesis →
      Of (.expression power behind tree (opened.span.merge close.span))
        (opened :: (inner ++ [close]))
  | literal {power behind : Nat} {token : Token} :
      token.kind.isLiteral = true →
      Of (.expression power behind (.constant token.literal token.span) token.span) [token]
  | name {power behind : Nat} {token : Token} :
      token.kind = .identifier →
      Of (.expression power behind (.name token.lexeme token.span) token.span) [token]
  | unary {power behind : Nat} {token : Token} {row : List Token} {tree : ExpressionTree}
      {covered : Span} (operator : UnaryOperator) :
      token.kind = operator.word.kind → behind < operator.level →
      Of (.expression operator.level behind tree covered) row →
      Of (.expression power behind (.unary operator tree (token.span.merge covered))
        (token.span.merge covered)) (token :: row)
  | middle {power behind : Nat} {token : Token} {front back : List Token}
      {left right : ExpressionTree} {leftCovered rightCovered : Span}
      (operator : MiddleOperator) :
      power ≤ operator.level → behind ≤ operator.level →
      Of (.expression power operator.level left leftCovered) front →
      token.kind = operator.word.kind →
      Of (.expression (operator.level + 1) behind right rightCovered) back →
      Of (.expression power behind (operator.tree left right (leftCovered.merge rightCovered))
        (leftCovered.merge rightCovered)) (front ++ token :: back)
  | member {power behind : Nat} {dot token : Token} {row : List Token} {object : ExpressionTree}
      {covered : Span} :
      power ≤ suffixPower → Of (.expression power suffixPower object covered) row →
      dot.kind = .dot → token.kind = .identifier →
      Of (.expression power behind
        (.member object token.lexeme token.span (covered.merge token.span))
        (covered.merge token.span)) (row ++ [dot, token])
  | element {power behind : Nat} {opened close : Token} {row inner : List Token}
      {object index : ExpressionTree} {covered indexCovered : Span} :
      power ≤ suffixPower → Of (.expression power suffixPower object covered) row →
      opened.kind = .leftBracket → Of (.expression 0 0 index indexCovered) inner →
      close.kind = .rightBracket →
      Of (.expression power behind (.element object index (covered.merge close.span))
        (covered.merge close.span)) (row ++ opened :: (inner ++ [close]))
  | array {power behind : Nat} {opened close : Token} {inner : List Token}
      {elements : List ExpressionTree} :
      opened.kind = .leftBracket → Of (.list elements) inner → close.kind = .rightBracket →
      Of (.expression power behind (.array elements (opened.span.merge close.span))
        (opened.span.merge close.span)) (opened :: (inner ++ [close]))
  | call {power behind : Nat} {opened close : Token} {row inner : List Token}
      {callee : ExpressionTree} {covered : Span} {arguments : List ExpressionTree} :
      power ≤ suffixPower → Of (.expression power suffixPower callee covered) row →
      opened.kind = .leftParenthesis → Of (.list arguments) inner →
      close.kind = .rightParenthesis →
      Of (.expression power behind (.call callee arguments (covered.merge close.span))
        (covered.merge close.span)) (row ++ opened :: (inner ++ [close]))
  | nothing : Of (.list []) []
  | last {row : List Token} {tree : ExpressionTree} {covered : Span} :
      Of (.expression 0 0 tree covered) row → Of (.list [tree]) row
  | more {comma : Token} {row others : List Token} {tree : ExpressionTree} {covered : Span}
      {trees : List ExpressionTree} :
      Of (.expression 0 0 tree covered) row → comma.kind = .comma → Of (.list trees) others →
      Of (.list (tree :: trees)) (row ++ comma :: others)

/-- Only a list can be empty. -/
theorem Grouping.Of.begins {grouping : Grouping} {row : List Token} (grouped : grouping.Of row)
    (notList : ∀ trees, grouping ≠ .list trees) :
    Token.BeginWith TokenKind.beginsOperand row := by
  induction grouped with
  | enclosed kind | name kind | array kind => exact ⟨_, _, rfl, by rw [kind]; rfl⟩
  | literal literal => exact ⟨_, _, rfl, TokenKind.beginsOperand_of_isLiteral literal⟩
  | unary operator kind =>
      refine ⟨_, _, rfl, ?_⟩
      rw [kind]
      cases operator <;> rfl
  | middle _ _ _ _ _ _ ih => exact (ih nofun).append _
  | member _ _ _ _ ih => exact (ih nofun).append _
  | element _ _ _ _ _ ih => exact (ih nofun).append _
  | call _ _ _ _ _ ih => exact (ih nofun).append _
  | nothing | last | more => exact absurd rfl (notList _)

/-!
## Balanced rows
-/

/-- What is opened in the row is closed there again, and no line ends in it. So it can stand
inside of any brackets. -/
structure Token.Balanced (row : List Token) : Prop where
  inner : ∀ token ∈ row, token.kind.endsLine = false
  depth : ∀ nesting, 0 < nesting → Token.depthFrom nesting row = nesting
  sheltered : ∀ nesting other, 0 < other → LexicalItem.Sheltered nesting other row

namespace Token.Balanced

variable {token opened close : Token} {row front back : List Token}

theorem nil : Token.Balanced [] :=
  ⟨List.forall_mem_nil _, fun _ _ => rfl, fun _ _ _ => trivial⟩

theorem sheltered_single (inner : token.kind.endsLine = false) {nesting other : Nat}
    (inside : 0 < other) : LexicalItem.Sheltered nesting other [token] := by
  refine ⟨fun _ => inside, fun newline => ?_, trivial⟩
  rw [newline] at inner
  cases inner

theorem single (inner : token.kind.endsLine = false)
    (flat : ∀ nesting, Lexeme.nestingAfter nesting token.kind = nesting) :
    Token.Balanced [token] where
  inner := List.forall_mem_singleton.mpr inner
  depth nesting _ := flat nesting
  sheltered _ _ := sheltered_single inner

theorem append (first : Token.Balanced front) (second : Token.Balanced back) :
    Token.Balanced (front ++ back) where
  inner := List.forall_mem_append.mpr ⟨first.inner, second.inner⟩
  depth nesting inside := by
    rw [depthFrom_append, first.depth nesting inside, second.depth nesting inside]
  sheltered nesting other inside := by
    refine LexicalItem.sheltered_append.mpr ⟨first.sheltered nesting other inside, ?_⟩
    rw [first.depth other inside]
    exact second.sheltered _ other inside

theorem cons (first : Token.Balanced [token]) (second : Token.Balanced back) :
    Token.Balanced (token :: back) :=
  first.append second

theorem enclosed (opens : ∀ nesting, Lexeme.nestingAfter nesting opened.kind = nesting + 1)
    (openInner : opened.kind.endsLine = false) (balanced : Token.Balanced row)
    (closes : ∀ nesting, Lexeme.nestingAfter nesting close.kind = nesting - 1)
    (closeInner : close.kind.endsLine = false) :
    Token.Balanced (opened :: (row ++ [close])) where
  inner := by
    refine List.forall_mem_cons.mpr ⟨openInner, List.forall_mem_append.mpr ⟨balanced.inner, ?_⟩⟩
    exact List.forall_mem_singleton.mpr closeInner
  depth nesting inside := by
    change depthFrom (Lexeme.nestingAfter nesting opened.kind) (row ++ [close]) = nesting
    rw [opens, depthFrom_append, balanced.depth _ (Nat.succ_pos nesting)]
    exact closes (nesting + 1)
  sheltered nesting other inside := by
    change LexicalItem.Sheltered nesting other ([opened] ++ (row ++ [close]))
    refine LexicalItem.sheltered_append.mpr
      ⟨sheltered_single openInner inside, LexicalItem.sheltered_append.mpr ?_⟩
    have deeper : depthFrom other [opened] = other + 1 := opens other
    rw [deeper, balanced.depth _ (Nat.succ_pos other)]
    exact ⟨balanced.sheltered _ _ (Nat.succ_pos other),
      sheltered_single closeInner (Nat.succ_pos other)⟩

theorem parenthesised (openKind : opened.kind = .leftParenthesis) (balanced : Token.Balanced row)
    (closeKind : close.kind = .rightParenthesis) : Token.Balanced (opened :: (row ++ [close])) :=
  enclosed (by rw [openKind]; exact fun _ => rfl) (by rw [openKind]; rfl) balanced
    (by rw [closeKind]; exact fun _ => rfl) (by rw [closeKind]; rfl)

theorem bracketed (openKind : opened.kind = .leftBracket) (balanced : Token.Balanced row)
    (closeKind : close.kind = .rightBracket) : Token.Balanced (opened :: (row ++ [close])) :=
  enclosed (by rw [openKind]; exact fun _ => rfl) (by rw [openKind]; rfl) balanced
    (by rw [closeKind]; exact fun _ => rfl) (by rw [closeKind]; rfl)

theorem literal (literal : token.kind.isLiteral = true) : Token.Balanced [token] := by
  generalize kind : token.kind = found at literal
  cases found
  case number | text | trueWord | falseWord | noneWord =>
    exact single (by rw [kind]; rfl) (by rw [kind]; exact fun _ => rfl)
  all_goals cases literal

theorem unary {operator : UnaryOperator} (kind : token.kind = operator.word.kind) :
    Token.Balanced [token] := by
  cases operator <;> exact single (by rw [kind]; rfl) (by rw [kind]; exact fun _ => rfl)

theorem middle {operator : MiddleOperator} (kind : token.kind = operator.word.kind) :
    Token.Balanced [token] := by
  cases operator with
  | binary operator =>
      cases operator <;> exact single (by rw [kind]; rfl) (by rw [kind]; exact fun _ => rfl)
  | logical operator =>
      cases operator <;> exact single (by rw [kind]; rfl) (by rw [kind]; exact fun _ => rfl)

end Token.Balanced

theorem Grouping.Of.balanced {grouping : Grouping} {row : List Token}
    (grouped : grouping.Of row) : Token.Balanced row := by
  have plain {token : Token} {kind : TokenKind} (same : token.kind = kind)
      (inner : kind.endsLine = false)
      (flat : ∀ nesting, Lexeme.nestingAfter nesting kind = nesting) : Token.Balanced [token] := by
    subst same
    exact .single inner flat
  induction grouped with
  | enclosed openKind _ closeKind ih => exact .parenthesised openKind ih closeKind
  | literal literal => exact .literal literal
  | name kind => exact plain kind rfl fun _ => rfl
  | unary _ kind _ _ ih => exact (Token.Balanced.unary kind).cons ih
  | middle _ _ _ _ kind _ leftIH rightIH =>
      exact leftIH.append ((Token.Balanced.middle kind).cons rightIH)
  | member _ _ dotKind kind ih =>
      exact ih.append ((plain dotKind rfl fun _ => rfl).cons (plain kind rfl fun _ => rfl))
  | element _ _ openKind _ closeKind objectIH indexIH =>
      exact objectIH.append (.bracketed openKind indexIH closeKind)
  | array openKind _ closeKind ih => exact .bracketed openKind ih closeKind
  | call _ _ openKind _ closeKind calleeIH ih =>
      exact calleeIH.append (.parenthesised openKind ih closeKind)
  | nothing => exact .nil
  | last _ ih => exact ih
  | more _ commaKind _ ih othersIH =>
      exact ih.append ((plain commaKind rfl fun _ => rfl).cons othersIH)

/-!
## Reading a row
-/

theorem Token.literal_congr {token other : Token} (kind : token.kind = other.kind)
    (lexeme : token.lexeme = other.lexeme) : token.literal = other.literal := by
  rw [Token.literal, Token.literal, kind, Token.number, Token.number, Token.text, Token.text,
    lexeme]

/-- The words of the row are read as its tree, in every place that asks for no higher power
and in front of every token that takes no more. -/
def Grouping.Leads : Grouping → List Token → Prop
  | .expression power behind tree _, row =>
      ∀ (moved : List Token) (following : Token) (rest : List Token) (script : Script)
        (lower : Nat), moved.map Token.word = row.map Token.word →
        following.kind.leftPower ≤ behind → lower ≤ power →
          Parse.Leads lower moved (following :: rest) script tree.term
  | .list trees, row =>
      ∀ (moved : List Token) (closing : TokenKind) (close : Token) (rest : List Token)
        (script : Script), moved.map Token.word = row.map Token.word →
        (closing = .rightParenthesis ∨ closing = .rightBracket) → close.kind = closing →
        rest ≠ [] → Parse.RowLeads closing moved close rest script (ExpressionTree.terms trees)

/-- Every row of a list begins with a token that does not close the list. -/
private theorem starts_of_begins {row moved : List Token} {closing : TokenKind}
    (begins : Token.BeginWith TokenKind.beginsOperand row)
    (same : moved.map Token.word = row.map Token.word)
    (closes : closing = .rightParenthesis ∨ closing = .rightBracket) :
    ∃ token back, moved = token :: back ∧ token.kind ≠ closing := by
  obtain ⟨first, others, rfl, begins⟩ := begins
  obtain ⟨token, back, rfl, word, _⟩ := List.map_eq_cons_iff.mp same
  have kind : token.kind = first.kind := congrArg Word.kind word
  refine ⟨token, back, rfl, ?_⟩
  rw [kind]
  rintro rfl
  rcases closes with closes | closes <;> rw [closes] at begins <;> cases begins

private theorem exists_moved_append {moved front back : List Token}
    (same : moved.map Token.word = (front ++ back).map Token.word) :
    ∃ first second, moved = first ++ second ∧ first.map Token.word = front.map Token.word ∧
      second.map Token.word = back.map Token.word := by
  rw [List.map_append] at same
  exact List.map_eq_append_iff.mp same

private theorem exists_moved_cons {moved back : List Token} {token : Token}
    (same : moved.map Token.word = (token :: back).map Token.word) :
    ∃ other rest, moved = other :: rest ∧ other.kind = token.kind ∧
      rest.map Token.word = back.map Token.word := by
  obtain ⟨other, rest, rfl, word, same⟩ := List.map_eq_cons_iff.mp same
  exact ⟨other, rest, rfl, congrArg Word.kind word, same⟩

private theorem exists_moved_single {moved : List Token} {token : Token}
    (same : moved.map Token.word = [token].map Token.word) :
    ∃ other, moved = [other] ∧ other.lexeme = token.lexeme ∧ other.kind = token.kind := by
  obtain ⟨other, rfl, word⟩ := List.map_eq_singleton_iff.mp same
  exact ⟨other, rfl, congrArg Word.lexeme word, congrArg Word.kind word⟩

private theorem exists_moved_enclosed {moved row : List Token} {opened close : Token}
    (same : moved.map Token.word = (opened :: (row ++ [close])).map Token.word) :
    ∃ first inner last, moved = first :: (inner ++ [last]) ∧ first.kind = opened.kind ∧
      inner.map Token.word = row.map Token.word ∧ last.kind = close.kind := by
  have spelled : moved.map Token.word = opened.word :: row.map Token.word ++ [close.word] := by
    simpa using same
  obtain ⟨first, inner, last, rfl, isOpen, sameInner, isClose⟩ := Token.exists_enclosed spelled
  exact ⟨first, inner, last, rfl, congrArg Word.kind isOpen, sameInner,
    congrArg Word.kind isClose⟩

theorem Grouping.Of.leads {grouping : Grouping} {row : List Token} (grouped : grouping.Of row) :
    grouping.Leads row := by
  induction grouped with
  | enclosed openKind _ closeKind ih =>
      intro moved following rest script lower same ends le
      obtain ⟨first, inner, last, rfl, firstKind, same, lastKind⟩ := exists_moved_enclosed same
      rw [closeKind] at lastKind
      have closes : last.kind.leftPower = 0 := by
        rw [lastKind]
        rfl
      exact Parse.leads_enclosed (firstKind.trans openKind) lastKind (List.cons_ne_nil _ _)
        (ih inner last _ script 0 same (Nat.le_of_eq closes) (Nat.le_refl 0))
  | literal literal =>
      intro moved following rest script lower same ends le
      obtain ⟨other, rfl, lexeme, kind⟩ := exists_moved_single same
      rw [ExpressionTree.term, ← Token.literal_congr kind lexeme]
      exact Parse.leads_literal (kind ▸ literal) (List.cons_ne_nil _ _)
  | name kind =>
      intro moved following rest script lower same ends le
      obtain ⟨other, rfl, lexeme, otherKind⟩ := exists_moved_single same
      rw [ExpressionTree.term, ← lexeme]
      exact Parse.leads_name (otherKind.trans kind) (List.cons_ne_nil _ _)
  | unary operator kind below _ ih =>
      intro moved following rest script lower same ends le
      obtain ⟨other, inner, rfl, otherKind, same⟩ := exists_moved_cons same
      exact Parse.leads_unary (otherKind.trans kind) (Nat.lt_of_le_of_lt ends below)
        (ih inner following rest script _ same ends (Nat.le_refl _))
  | middle operator high behindLe _ kind _ leftIH rightIH =>
      intro moved following rest script lower same ends le
      obtain ⟨front, others, rfl, sameFront, same⟩ := exists_moved_append same
      obtain ⟨other, back, rfl, otherKind, sameBack⟩ := exists_moved_cons same
      have otherKind := otherKind.trans kind
      have binds : other.kind.leftPower = operator.level := by
        rw [otherKind]
        exact TokenKind.leftPower_of_ofKind? operator.ofKind?_word
      rw [operator.term_tree]
      exact Parse.leads_middle otherKind (Nat.le_trans le high)
        (Nat.lt_succ_of_le (Nat.le_trans ends behindLe))
        (leftIH front other _ script lower sameFront (Nat.le_of_eq binds) le)
        fun script => rightIH back following rest script _ sameBack ends (Nat.le_refl _)
  | member high _ dotKind kind ih =>
      intro moved following rest script lower same ends le
      obtain ⟨front, others, rfl, sameFront, same⟩ := exists_moved_append same
      obtain ⟨dot, others, rfl, otherKind, same⟩ := exists_moved_cons same
      obtain ⟨token, rfl, lexeme, tokenKind⟩ := exists_moved_single same
      have dotKind := otherKind.trans dotKind
      have binds : dot.kind.leftPower = suffixPower := by
        rw [dotKind]
        rfl
      rw [ExpressionTree.term, ← lexeme]
      exact Parse.leads_member dotKind (tokenKind.trans kind) (Nat.le_trans le high)
        (List.cons_ne_nil _ _) (ih front dot _ script lower sameFront (Nat.le_of_eq binds) le)
  | element high _ openKind _ closeKind objectIH indexIH =>
      intro moved following rest script lower same ends le
      obtain ⟨front, others, rfl, sameFront, same⟩ := exists_moved_append same
      obtain ⟨first, inner, last, rfl, firstKind, same, lastKind⟩ := exists_moved_enclosed same
      have openKind := firstKind.trans openKind
      have closeKind := lastKind.trans closeKind
      have binds : first.kind.leftPower = suffixPower := by
        rw [openKind]
        rfl
      have closes : last.kind.leftPower = 0 := by
        rw [closeKind]
        rfl
      exact Parse.leads_element openKind closeKind (Nat.le_trans le high) (List.cons_ne_nil _ _)
        (objectIH front first _ script lower sameFront (Nat.le_of_eq binds) le)
        fun script => indexIH inner last _ script 0 same (Nat.le_of_eq closes) (Nat.le_refl 0)
  | array openKind _ closeKind ih =>
      intro moved following rest script lower same ends le
      obtain ⟨first, inner, last, rfl, firstKind, same, lastKind⟩ := exists_moved_enclosed same
      exact Parse.leads_array (firstKind.trans openKind)
        (ih inner _ last _ script same (.inr rfl) (lastKind.trans closeKind)
          (List.cons_ne_nil _ _))
  | call high _ openKind _ closeKind calleeIH ih =>
      intro moved following rest script lower same ends le
      obtain ⟨front, others, rfl, sameFront, same⟩ := exists_moved_append same
      obtain ⟨first, inner, last, rfl, firstKind, same, lastKind⟩ := exists_moved_enclosed same
      have openKind := firstKind.trans openKind
      have binds : first.kind.leftPower = suffixPower := by
        rw [openKind]
        rfl
      exact Parse.leads_call openKind (Nat.le_trans le high)
        (calleeIH front first _ script lower sameFront (Nat.le_of_eq binds) le)
        fun script => ih inner _ last _ script same (.inl rfl) (lastKind.trans closeKind)
          (List.cons_ne_nil _ _)
  | nothing =>
      intro moved closing close rest script same closes kind more
      obtain rfl : moved = [] := List.map_eq_nil_iff.mp same
      exact .nothing kind more script
  | last grouped ih =>
      intro moved closing close rest script same closes kind more
      have noPower : close.kind.leftPower = 0 := by
        rw [kind]
        rcases closes with rfl | rfl <;> rfl
      exact .last closes kind more (starts_of_begins (grouped.begins nofun) same closes)
        (ih moved close rest script 0 same (Nat.le_of_eq noPower) (Nat.le_refl 0))
  | more grouped commaKind _ ih othersIH =>
      intro moved closing close rest script same closes kind more
      obtain ⟨front, others, rfl, sameFront, same⟩ := exists_moved_append same
      obtain ⟨comma, back, rfl, otherKind, sameBack⟩ := exists_moved_cons same
      have commaKind := otherKind.trans commaKind
      have noPower : comma.kind.leftPower = 0 := by
        rw [commaKind]
        rfl
      exact .more commaKind (starts_of_begins (grouped.begins nofun) sameFront closes)
        (ih front comma _ script 0 sameFront (Nat.le_of_eq noPower) (Nat.le_refl 0))
        fun script => othersIH back closing close rest script sameBack closes kind more

end ScriptEngine
