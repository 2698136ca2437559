import ScriptEngine.Proofs.Grammar.StatementPrinting

/-!
# The grammar

The rows of tokens that are expressions, and the ones that are statements. Nothing is said
about what a row means. So an expression is a row of operands with operators between
them: the powers of the operators decide how the row is grouped, but not whether it is an
expression.

Every block has one of two forms, a colon with a simple statement or a newline with any
number of statements, and a compound is closed by `end` if its last block has the second
form. The same row may then be derived in several ways. An `elsif` or `else` behind a
conditional that could still take it may belong to that conditional or to one around it.
-/

set_option autoImplicit false

namespace ScriptEngine

/-!
## Expressions
-/

/-- An expression that can be written to, an operand with what is applied to it, a whole
expression, expressions with commas between them, and the same with nothing allowed. -/
inductive ExpressionSymbol where
  | target
  | applied
  | whole
  | items
  | list

inductive ExpressionSymbol.Derives : ExpressionSymbol → List Token → Prop where
  | name {token : Token} :
      token.kind = .identifier → Derives .target [token]
  | member {object : List Token} {dot token : Token} :
      Derives .applied object → dot.kind = .dot → token.kind = .identifier →
      Derives .target (object ++ [dot, token])
  | element {object index : List Token} {opened close : Token} :
      Derives .applied object → opened.kind = .leftBracket → Derives .whole index →
      close.kind = .rightBracket → Derives .target (object ++ opened :: (index ++ [close]))
  | target {row : List Token} :
      Derives .target row → Derives .applied row
  | literal {token : Token} :
      token.kind.isLiteral = true → Derives .applied [token]
  | enclosed {inner : List Token} {opened close : Token} :
      opened.kind = .leftParenthesis → Derives .whole inner → close.kind = .rightParenthesis →
      Derives .applied (opened :: (inner ++ [close]))
  | array {elements : List Token} {opened close : Token} :
      opened.kind = .leftBracket → Derives .list elements → close.kind = .rightBracket →
      Derives .applied (opened :: (elements ++ [close]))
  | call {callee arguments : List Token} {opened close : Token} :
      Derives .applied callee → opened.kind = .leftParenthesis → Derives .list arguments →
      close.kind = .rightParenthesis →
      Derives .applied (callee ++ opened :: (arguments ++ [close]))
  | applied {row : List Token} :
      Derives .applied row → Derives .whole row
  | unary {token : Token} {operand : List Token} (operator : UnaryOperator) :
      token.kind = operator.word.kind → Derives .whole operand →
      Derives .whole (token :: operand)
  | middle {token : Token} {left right : List Token} (operator : MiddleOperator) :
      Derives .applied left → token.kind = operator.word.kind → Derives .whole right →
      Derives .whole (left ++ token :: right)
  | last {row : List Token} :
      Derives .whole row → Derives .items row
  | more {row others : List Token} {comma : Token} :
      Derives .whole row → comma.kind = .comma → Derives .items others →
      Derives .items (row ++ comma :: others)
  | nothing : Derives .list []
  | items {row : List Token} :
      Derives .items row → Derives .list row

/-- There is a first token, and it is of the given kinds. -/
def Token.BeginWith (kinds : TokenKind → Bool) (row : List Token) : Prop :=
  ∃ first others, row = first :: others ∧ kinds first.kind = true

theorem Token.BeginWith.append {kinds : TokenKind → Bool} {row : List Token}
    (begins : Token.BeginWith kinds row) (more : List Token) :
    Token.BeginWith kinds (row ++ more) := by
  obtain ⟨first, others, rfl, begins⟩ := begins
  exact ⟨first, others ++ more, rfl, begins⟩

theorem Token.BeginWith.mono {kinds others : TokenKind → Bool} {row : List Token}
    (begins : Token.BeginWith kinds row)
    (more : ∀ kind, kinds kind = true → others kind = true) : Token.BeginWith others row := by
  obtain ⟨first, rest, rfl, begins⟩ := begins
  exact ⟨first, rest, rfl, more _ begins⟩

theorem TokenKind.beginsOperand_of_isLiteral {kind : TokenKind} (literal : kind.isLiteral = true) :
    kind.beginsOperand = true := by
  cases kind <;> first | rfl | cases literal

/-- Only a list can be empty. -/
theorem ExpressionSymbol.Derives.begins {symbol : ExpressionSymbol} {row : List Token}
    (derived : symbol.Derives row) (notList : symbol ≠ .list) :
    Token.BeginWith TokenKind.beginsOperand row := by
  induction derived with
  | name kind => exact ⟨_, _, rfl, by rw [kind]; rfl⟩
  | literal literal => exact ⟨_, _, rfl, TokenKind.beginsOperand_of_isLiteral literal⟩
  | enclosed kind | array kind => exact ⟨_, _, rfl, by rw [kind]; rfl⟩
  | unary operator kind =>
      refine ⟨_, _, rfl, ?_⟩
      rw [kind]
      cases operator <;> rfl
  | member _ _ _ ih => exact (ih nofun).append _
  | element _ _ _ _ ih => exact (ih nofun).append _
  | call _ _ _ _ ih => exact (ih nofun).append _
  | middle _ _ _ _ ih => exact (ih nofun).append _
  | more _ _ _ ih => exact (ih nofun).append _
  | target _ ih | applied _ ih | last _ ih => exact ih nofun
  | nothing | items => exact absurd rfl notList

/-!
## Simple statements
-/

/-- Names with commas between them. -/
inductive NamesRow : List Token → Prop where
  | nothing : NamesRow []
  | last {name : Token} : name.kind = .identifier → NamesRow [name]
  | more {name comma next : Token} {others : List Token} :
      name.kind = .identifier → comma.kind = .comma → NamesRow (next :: others) →
      NamesRow (name :: comma :: next :: others)

/-- The statements without blocks, up to what ends them. -/
inductive SimpleRow : List Token → Prop where
  | expression {value : List Token} :
      ExpressionSymbol.whole.Derives value → SimpleRow value
  | print {token : Token} {values : List Token} :
      token.kind = .printWord → ExpressionSymbol.list.Derives values → SimpleRow (token :: values)
  | assign {token : Token} {target value : List Token} (operator : AssignOperator) :
      ExpressionSymbol.target.Derives target → token.kind = operator.word.kind →
      ExpressionSymbol.whole.Derives value → SimpleRow (target ++ token :: value)
  | breakLoop {token : Token} :
      token.kind = .breakWord → SimpleRow [token]
  | breakLoops {token number : Token} {digits : List Char} :
      token.kind = .breakWord → number.kind = .number →
      number.lexeme = String.ofList digits → digits.all Char.isDigit = true →
      DecimalText.digitsValue digits < UInt64.size → SimpleRow [token, number]
  | continueLoop {token : Token} :
      token.kind = .continueWord → SimpleRow [token]
  | returnNothing {token : Token} :
      token.kind = .returnWord → SimpleRow [token]
  | returnValue {token : Token} {value : List Token} :
      token.kind = .returnWord → ExpressionSymbol.whole.Derives value → SimpleRow (token :: value)
  | pass {token : Token} :
      token.kind = .passWord → SimpleRow [token]
  | delete {token name : Token} :
      token.kind = .delWord → name.kind = .identifier → SimpleRow [token, name]

theorem SimpleRow.begins {row : List Token} (simple : SimpleRow row) :
    Token.BeginWith TokenKind.beginsSimple row := by
  cases simple with
  | expression value =>
      exact (value.begins nofun).mono fun _ => TokenKind.beginsSimple_of_operand
  | assign _ target =>
      exact ((target.begins nofun).mono fun _ => TokenKind.beginsSimple_of_operand).append _
  | print kind | breakLoop kind | breakLoops kind | continueLoop kind | returnNothing kind
  | returnValue kind | pass kind | delete kind => exact ⟨_, _, rfl, by rw [kind]; rfl⟩

/-!
## Statements with blocks
-/

/-- What stands behind a simple statement and behind `end`. Only the end of the source can
stand behind a row that is not closed. -/
inductive Terminator : Bool → List Token → Prop where
  | separator {token : Token} :
      token.kind = .newline ∨ token.kind = .semicolon → Terminator true [token]
  | source : Terminator false []

/-- A row of empty lines. -/
def BlankLines (row : List Token) : Prop :=
  ∀ token ∈ row, token.kind = .newline

theorem BlankLines.nil : BlankLines [] := List.forall_mem_nil _

theorem BlankLines.kinds {row : List Token} (lines : BlankLines row) :
    ∀ token ∈ row, token.kind ∈ [TokenKind.newline] := by
  intro token member
  exact List.mem_singleton.mpr (lines token member)

/-- The symbols of the grammar of statements. A row that dangles ends in a conditional
that an `elsif` or `else` behind it would belong to. -/
inductive StatementSymbol where
  | statement (closed dangles : Bool)
  | sequence (closed dangles : Bool)
  /-- The last block of a compound, with its `end`. -/
  | body (closed : Bool)
  /-- What stands behind a condition of a conditional. -/
  | branches (closed dangles : Bool)
  /-- What stands behind a block of a conditional that is not the last one. -/
  | further (closed dangles : Bool)

/-- The rows that can be derived from a symbol. Where `dangling` is false, no block that an
`elsif` or `else` stands behind ends in a conditional that could take it. -/
inductive StatementSymbol.Derives (dangling : Bool) : StatementSymbol → List Token → Prop where
  | simple {closed : Bool} {row ending : List Token} :
      SimpleRow row → Terminator closed ending →
      Derives dangling (.statement closed false) (row ++ ending)
  | branch {closed dangles : Bool} {token : Token} {condition rest : List Token} :
      token.kind = .ifWord → ExpressionSymbol.whole.Derives condition →
      Derives dangling (.branches closed dangles) rest →
      Derives dangling (.statement closed dangles) (token :: (condition ++ rest))
  | whileLoop {closed : Bool} {token : Token} {condition body : List Token} :
      token.kind = .whileWord → ExpressionSymbol.whole.Derives condition →
      Derives dangling (.body closed) body →
      Derives dangling (.statement closed false) (token :: (condition ++ body))
  | forLoop {closed : Bool} {token item inToken : Token} {iterable body : List Token} :
      token.kind = .forWord → item.kind = .identifier → inToken.kind = .inWord →
      ExpressionSymbol.whole.Derives iterable → Derives dangling (.body closed) body →
      Derives dangling (.statement closed false)
        (token :: item :: inToken :: (iterable ++ body))
  | define {closed : Bool} {token name opened close : Token} {names body : List Token} :
      token.kind = .defWord → name.kind = .identifier → opened.kind = .leftParenthesis →
      NamesRow names → close.kind = .rightParenthesis → Derives dangling (.body closed) body →
      Derives dangling (.statement closed false)
        (token :: name :: opened :: (names ++ close :: body))
  | record {closed : Bool} {token name : Token} {body : List Token} :
      token.kind = .recordWord → name.kind = .identifier → Derives dangling (.body closed) body →
      Derives dangling (.statement closed false) (token :: name :: body)
  | recordAlone {closed : Bool} {token name : Token} {ending : List Token} :
      token.kind = .recordWord → name.kind = .identifier → Terminator closed ending →
      (∀ token ∈ ending, token.kind ≠ .newline) →
      Derives dangling (.statement closed false) (token :: name :: ending)
  | blank {row : List Token} :
      BlankLines row → Derives dangling (.sequence true false) row
  | followed {closed before dangles : Bool} {front row blank : List Token} :
      Derives dangling (.sequence true before) front →
      Derives dangling (.statement closed dangles) row → BlankLines blank →
      (closed = false → blank = []) →
      Derives dangling (.sequence closed dangles) (front ++ (row ++ blank))
  | line {closed : Bool} {colon : Token} {row ending : List Token} :
      colon.kind = .colon → SimpleRow row → Terminator closed ending →
      Derives dangling (.body closed) (colon :: (row ++ ending))
  | lines {closed dangles : Bool} {newline endToken : Token} {inner ending : List Token} :
      newline.kind = .newline → Derives dangling (.sequence true dangles) inner →
      endToken.kind = .endWord → Terminator closed ending →
      Derives dangling (.body closed) (newline :: (inner ++ endToken :: ending))
  | lastLine {closed : Bool} {colon : Token} {row ending : List Token} :
      colon.kind = .colon → SimpleRow row → Terminator closed ending →
      Derives dangling (.branches closed true) (colon :: (row ++ ending))
  | lastLines {closed dangles : Bool} {newline endToken : Token} {inner ending : List Token} :
      newline.kind = .newline → Derives dangling (.sequence true dangles) inner →
      endToken.kind = .endWord → Terminator closed ending →
      Derives dangling (.branches closed false) (newline :: (inner ++ endToken :: ending))
  | lineThen {closed dangles : Bool} {colon : Token} {row ending blank rest : List Token} :
      colon.kind = .colon → SimpleRow row → Terminator true ending → BlankLines blank →
      Derives dangling (.further closed dangles) rest →
      Derives dangling (.branches closed dangles) (colon :: (row ++ (ending ++ (blank ++ rest))))
  | linesThen {closed within dangles : Bool} {newline : Token} {inner rest : List Token} :
      newline.kind = .newline → Derives dangling (.sequence true within) inner →
      (within = true → dangling = true) → Derives dangling (.further closed dangles) rest →
      Derives dangling (.branches closed dangles) (newline :: (inner ++ rest))
  | elsif {closed dangles : Bool} {token : Token} {condition rest : List Token} :
      token.kind = .elsifWord → ExpressionSymbol.whole.Derives condition →
      Derives dangling (.branches closed dangles) rest →
      Derives dangling (.further closed dangles) (token :: (condition ++ rest))
  | otherwise {closed : Bool} {token : Token} {body : List Token} :
      token.kind = .elseWord → Derives dangling (.body closed) body →
      Derives dangling (.further closed false) (token :: body)

theorem StatementSymbol.Derives.begins {dangling closed dangles : Bool} {row : List Token}
    (derived : (StatementSymbol.statement closed dangles).Derives dangling row) :
    Token.BeginWith TokenKind.beginsStatement row := by
  cases derived with
  | simple simple =>
      exact (simple.begins.mono fun _ => TokenKind.beginsStatement_of_simple).append _
  | branch kind | whileLoop kind | forLoop kind | define kind | record kind | recordAlone kind =>
      exact ⟨_, _, rfl, by rw [kind]; rfl⟩

theorem StatementSymbol.Derives.begins_body {dangling closed : Bool} {row : List Token}
    (derived : (StatementSymbol.body closed).Derives dangling row) :
    Token.BeginWith TokenKind.beginsBlock row := by
  cases derived with
  | line kind | lines kind => exact ⟨_, _, rfl, by rw [kind]; rfl⟩

theorem StatementSymbol.Derives.begins_branches {dangling closed dangles : Bool}
    {row : List Token}
    (derived : (StatementSymbol.branches closed dangles).Derives dangling row) :
    Token.BeginWith TokenKind.beginsBlock row := by
  cases derived with
  | lastLine kind | lastLines kind | lineThen kind | linesThen kind =>
      exact ⟨_, _, rfl, by rw [kind]; rfl⟩

/-- The kinds of tokens that lead from one block of a conditional to the next. -/
def TokenKind.leadsOn : TokenKind → Bool
  | .elsifWord | .elseWord => true
  | _ => false

theorem StatementSymbol.Derives.begins_further {dangling closed dangles : Bool}
    {row : List Token}
    (derived : (StatementSymbol.further closed dangles).Derives dangling row) :
    Token.BeginWith TokenKind.leadsOn row := by
  cases derived with
  | elsif kind | otherwise kind => exact ⟨_, _, rfl, by rw [kind]; rfl⟩

end ScriptEngine
