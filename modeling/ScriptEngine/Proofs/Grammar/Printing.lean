import ScriptEngine.Grammar.Expression
import ScriptEngine.Proofs.Script.Tree

/-!
# Printed expressions

A term is an expression without places. It is printed as a row of words, one for
each token. Every place where an expression can stand requires a level of it, and
an expression below that level needs parentheses there; an expression that is high
enough may have them all the same. `Printed` is every such row of words, and
`Term.words` is the one with the fewest parentheses.
-/

set_option autoImplicit false

namespace ScriptEngine

/-- A token without its place. -/
structure Word where
  kind : TokenKind
  lexeme : String
deriving DecidableEq, Repr

inductive Term where
  | constant (value : Value)
  | name (name : String)
  | unary (operator : UnaryOperator) (operand : Term)
  | middle (operator : MiddleOperator) (left right : Term)
  | member (object : Term) (name : String)
  | element (object index : Term)
  | array (elements : List Term)
  | call (callee : Term) (arguments : List Term)

mutual

/-- The expression without its places. -/
def ExpressionTree.term : ExpressionTree → Term
  | .constant value _ => .constant value
  | .name identifier _ => .name identifier
  | .unary operator operand _ => .unary operator operand.term
  | .binary operator left right _ => .middle (.binary operator) left.term right.term
  | .shortCircuit operator left right _ => .middle (.logical operator) left.term right.term
  | .member object identifier _ _ => .member object.term identifier
  | .element object index _ => .element object.term index.term
  | .array elements _ => .array (ExpressionTree.terms elements)
  | .call callee arguments _ => .call callee.term (ExpressionTree.terms arguments)

def ExpressionTree.terms : List ExpressionTree → List Term
  | [] => []
  | tree :: trees => tree.term :: ExpressionTree.terms trees

end

/-!
## Levels and words
-/

def UnaryOperator.level : UnaryOperator → Nat
  | .not => 5
  | .minus => 13

def MiddleOperator.level : MiddleOperator → Nat
  | .logical .or => 1
  | .logical .and => 3
  | .binary .equal | .binary .notEqual | .binary .lessThan | .binary .lessThanOrEqual
  | .binary .greaterThan | .binary .greaterThanOrEqual | .binary .contained => 7
  | .binary .add | .binary .subtract => 9
  | .binary .multiply | .binary .divide | .binary .modulo => 11

/-- The level of calls, indexing and member access. -/
def suffixLevel : Nat := 15

/-- The level of names, constants, arrays and everything in parentheses. -/
def primaryLevel : Nat := 17

def Term.level : Term → Nat
  | .unary operator _ => operator.level
  | .middle operator _ _ => operator.level
  | .member .. | .element .. | .call .. => suffixLevel
  | .constant _ | .name _ | .array _ => primaryLevel

namespace Word

def leftParenthesis : Word := ⟨.leftParenthesis, "("⟩

def rightParenthesis : Word := ⟨.rightParenthesis, ")"⟩

def leftBracket : Word := ⟨.leftBracket, "["⟩

def rightBracket : Word := ⟨.rightBracket, "]"⟩

def comma : Word := ⟨.comma, ","⟩

def dot : Word := ⟨.dot, "."⟩

def name (name : String) : Word := ⟨.identifier, name⟩

def number (characters : List Char) : Word := ⟨.number, String.ofList characters⟩

/-- A text between two quotes, with backslashes in front of what would end it. -/
def text (quote : Char) (value : String) : Word :=
  ⟨.text, String.ofList (quote :: TextLiteral.escape quote value.toList ++ [quote])⟩

def trueWord : Word := ⟨.trueWord, "True"⟩

def falseWord : Word := ⟨.falseWord, "False"⟩

def noneWord : Word := ⟨.noneWord, "None"⟩

/-- The words with a space between every two of them. -/
def spaced (words : List Word) : String :=
  " ".intercalate (words.map Word.lexeme)

end Word

def UnaryOperator.word : UnaryOperator → Word
  | .minus => ⟨.minus, "-"⟩
  | .not => ⟨.notWord, "not"⟩

def MiddleOperator.word : MiddleOperator → Word
  | .binary .add => ⟨.plus, "+"⟩
  | .binary .subtract => ⟨.minus, "-"⟩
  | .binary .multiply => ⟨.star, "*"⟩
  | .binary .divide => ⟨.slash, "/"⟩
  | .binary .modulo => ⟨.percent, "%"⟩
  | .binary .equal => ⟨.equalEqual, "=="⟩
  | .binary .notEqual => ⟨.bangEqual, "!="⟩
  | .binary .lessThan => ⟨.lessThan, "<"⟩
  | .binary .lessThanOrEqual => ⟨.lessThanEqual, "<="⟩
  | .binary .greaterThan => ⟨.greaterThan, ">"⟩
  | .binary .greaterThanOrEqual => ⟨.greaterThanEqual, ">="⟩
  | .binary .contained => ⟨.inWord, "in"⟩
  | .logical .and => ⟨.andWord, "and"⟩
  | .logical .or => ⟨.orWord, "or"⟩

def AssignOperator.word : AssignOperator → Word
  | .set => ⟨.equal, "="⟩
  | .add => ⟨.plusEqual, "+="⟩
  | .subtract => ⟨.minusEqual, "-="⟩

/-- Whether a word is a name and not a keyword. -/
def isIdentifier (word : String) : Bool :=
  match word.toList with
  | [] => false
  | first :: rest =>
      Lexeme.isWordStart first && rest.all Lexeme.isWordCharacter &&
        TokenKind.ofWord word == .identifier

/-- Whether the characters are digits, with at most one point between two of them. -/
def isNumeral (characters : List Char) : Bool :=
  !(characters.takeWhile Char.isDigit).isEmpty &&
    match characters.dropWhile Char.isDigit with
    | [] => true
    | '.' :: digit :: digits => digit.isDigit && digits.all Char.isDigit
    | _ => false

/-!
## Printing
-/

/-- The words that stand for a literal. -/
inductive LiteralPrinted : Value → Word → Prop where
  | number {value : Float} {characters : List Char} :
      isNumeral characters = true → DecimalText.number? characters = some value →
      LiteralPrinted (.number value) (.number characters)
  | text {value : String} {quote : Char} :
      quote = '"' ∨ quote = '\'' → LiteralPrinted (.text value) (.text quote value)
  | trueWord : LiteralPrinted (.bool true) .trueWord
  | falseWord : LiteralPrinted (.bool false) .falseWord
  | noneWord : LiteralPrinted .none .noneWord

/-- The kinds of tokens that are expressions of their own, except for names. -/
def TokenKind.isLiteral : TokenKind → Bool
  | .number | .text | .trueWord | .falseWord | .noneWord => true
  | _ => false

/-- The value that a literal stands for. -/
def Token.literal (token : Token) : Value :=
  match token.kind with
  | .number => .number token.number
  | .text => .text token.text
  | .trueWord => .bool true
  | .falseWord => .bool false
  | _ => .none

/-- The rows of words with a comma between every two of them. -/
def Word.separated (rows : List (List Word)) : List Word :=
  [Word.comma].intercalate rows

/-- The words spell the term where an expression of at least the `required` level
can stand. -/
inductive Printed : Nat → Term → List Word → Prop where
  | enclosed {required : Nat} {term : Term} {words : List Word} :
      Printed 0 term words →
      Printed required term (Word.leftParenthesis :: words ++ [Word.rightParenthesis])
  | constant {required : Nat} {value : Value} {word : Word} :
      LiteralPrinted value word → Printed required (.constant value) [word]
  | name {required : Nat} {name : String} :
      isIdentifier name = true → Printed required (.name name) [.name name]
  | unary {required : Nat} {operator : UnaryOperator} {operand : Term} {words : List Word} :
      required ≤ operator.level → Printed operator.level operand words →
      Printed required (.unary operator operand) (operator.word :: words)
  | middle {required : Nat} {operator : MiddleOperator} {left right : Term}
      {leftWords rightWords : List Word} :
      required ≤ operator.level → Printed operator.level left leftWords →
      Printed (operator.level + 1) right rightWords →
      Printed required (.middle operator left right) (leftWords ++ operator.word :: rightWords)
  | member {required : Nat} {object : Term} {name : String} {words : List Word} :
      required ≤ suffixLevel → Printed suffixLevel object words → isIdentifier name = true →
      Printed required (.member object name) (words ++ [Word.dot, .name name])
  | element {required : Nat} {object index : Term} {words indexWords : List Word} :
      required ≤ suffixLevel → Printed suffixLevel object words → Printed 0 index indexWords →
      Printed required (.element object index)
        (words ++ Word.leftBracket :: indexWords ++ [Word.rightBracket])
  | array {required : Nat} {elements : List (Term × List Word)} :
      (∀ element ∈ elements, Printed 0 element.1 element.2) →
      Printed required (.array (elements.map Prod.fst))
        (Word.leftBracket :: Word.separated (elements.map Prod.snd) ++ [Word.rightBracket])
  | call {required : Nat} {callee : Term} {arguments : List (Term × List Word)}
      {words : List Word} :
      required ≤ suffixLevel → Printed suffixLevel callee words →
      (∀ argument ∈ arguments, Printed 0 argument.1 argument.2) →
      Printed required (.call callee (arguments.map Prod.fst))
        (words ++ Word.leftParenthesis :: Word.separated (arguments.map Prod.snd) ++
          [Word.rightParenthesis])

/-- The kinds of tokens that an operand can begin with. -/
def TokenKind.beginsOperand : TokenKind → Bool
  | .number | .text | .trueWord | .falseWord | .noneWord | .identifier | .minus | .notWord
  | .leftParenthesis | .leftBracket => true
  | _ => false

/-- There is a first word, and it is of the given kinds. -/
def Word.BeginWith (kinds : TokenKind → Bool) (words : List Word) : Prop :=
  ∃ first others, words = first :: others ∧ kinds first.kind = true

theorem Word.BeginWith.append {kinds : TokenKind → Bool} {words : List Word}
    (begins : Word.BeginWith kinds words) (more : List Word) :
    Word.BeginWith kinds (words ++ more) := by
  obtain ⟨first, others, rfl, begins⟩ := begins
  exact ⟨first, others ++ more, rfl, begins⟩

theorem Word.BeginWith.mono {kinds others : TokenKind → Bool} {words : List Word}
    (begins : Word.BeginWith kinds words)
    (more : ∀ kind, kinds kind = true → others kind = true) : Word.BeginWith others words := by
  obtain ⟨first, rest, rfl, begins⟩ := begins
  exact ⟨first, rest, rfl, more _ begins⟩

theorem Printed.begins {required : Nat} {term : Term} {words : List Word}
    (printed : Printed required term words) : Word.BeginWith TokenKind.beginsOperand words := by
  induction printed with
  | enclosed => exact ⟨_, _, rfl, rfl⟩
  | constant literal =>
      refine ⟨_, _, rfl, ?_⟩
      cases literal <;> rfl
  | name => exact ⟨_, _, rfl, rfl⟩
  | @unary _ operator =>
      refine ⟨_, _, rfl, ?_⟩
      cases operator <;> rfl
  | middle _ _ _ ih | member _ _ _ ih => exact ih.append _
  | element _ _ _ ih =>
      rw [List.append_assoc]
      exact ih.append _
  | call _ _ _ ih =>
      rw [List.append_assoc]
      exact ih.append _
  | array => exact ⟨_, _, rfl, rfl⟩

theorem Printed.opens {required : Nat} {term : Term} {words : List Word}
    (printed : Printed required term words) :
    ∃ first others, words = first :: others ∧
      first.kind ≠ .rightParenthesis ∧ first.kind ≠ .rightBracket := by
  obtain ⟨first, others, rfl, begins⟩ := printed.begins
  refine ⟨first, others, rfl, ?_⟩
  constructor <;> intro same <;> rw [same] at begins <;> cases begins

/-!
## The fewest parentheses
-/

section

variable (numeral : Float → List Char)

/-- The word for a literal, where `numeral` writes numbers. No word stands for an
object. -/
def Value.word : Value → Word
  | .number value => .number (numeral value)
  | .text value => .text '"' value
  | .bool true => .trueWord
  | .bool false => .falseWord
  | _ => .noneWord

/-- Parentheses around an expression that is below the level its place requires. -/
def Word.within (required level : Nat) (words : List Word) : List Word :=
  if level < required then leftParenthesis :: words ++ [rightParenthesis] else words

mutual

/-- The words of a term in a place that requires a level, with no parentheses but the
necessary ones. -/
def Term.words (required : Nat) : Term → List Word
  | .constant value => [value.word numeral]
  | .name identifier => [.name identifier]
  | .unary operator operand =>
      Word.within required operator.level (operator.word :: operand.words operator.level)
  | .middle operator left right =>
      Word.within required operator.level
        (left.words operator.level ++ operator.word :: right.words (operator.level + 1))
  | .member object identifier =>
      Word.within required suffixLevel (object.words suffixLevel ++ [Word.dot, .name identifier])
  | .element object index =>
      Word.within required suffixLevel
        (object.words suffixLevel ++ Word.leftBracket :: index.words 0 ++ [Word.rightBracket])
  | .array elements =>
      Word.leftBracket :: Word.separated (Term.allWords elements) ++ [Word.rightBracket]
  | .call callee arguments =>
      Word.within required suffixLevel
        (callee.words suffixLevel ++ Word.leftParenthesis ::
          Word.separated (Term.allWords arguments) ++ [Word.rightParenthesis])

def Term.allWords : List Term → List (List Word)
  | [] => []
  | term :: terms => term.words 0 :: Term.allWords terms

end

/-- The value has a literal that reads back as it. -/
def Value.HasLiteral : Value → Prop
  | .number value =>
      isNumeral (numeral value) = true ∧ DecimalText.number? (numeral value) = some value
  | .text _ | .bool _ | .none => True
  | _ => False

mutual

/-- The term is made of literals and names. -/
def Term.Printable : Term → Prop
  | .constant value => value.HasLiteral numeral
  | .name identifier => isIdentifier identifier = true
  | .unary _ operand => operand.Printable
  | .middle _ left right => left.Printable ∧ right.Printable
  | .member object identifier => object.Printable ∧ isIdentifier identifier = true
  | .element object index => object.Printable ∧ index.Printable
  | .array elements => Term.AllPrintable elements
  | .call callee arguments => callee.Printable ∧ Term.AllPrintable arguments

def Term.AllPrintable : List Term → Prop
  | [] => True
  | term :: terms => term.Printable ∧ Term.AllPrintable terms

end

end

variable {numeral : Float → List Char}

private theorem Value.HasLiteral.printed {value : Value} (literal : value.HasLiteral numeral) :
    LiteralPrinted value (value.word numeral) := by
  cases value with
  | number value => exact .number literal.1 literal.2
  | text value => exact .text (.inl rfl)
  | bool value =>
      cases value with
      | true => exact .trueWord
      | false => exact .falseWord
  | none => exact .noneWord
  | _ => exact literal.elim

private theorem printed_within {required level : Nat} {term : Term} {words : List Word}
    (printed : ∀ place, place ≤ level → Printed place term words) :
    Printed required term (Word.within required level words) := by
  unfold Word.within
  split
  · exact .enclosed (printed 0 (Nat.zero_le level))
  · next enough => exact printed required (Nat.le_of_not_lt enough)

mutual

theorem Term.Printable.printed (term : Term) (printable : term.Printable numeral)
    (required : Nat) : Printed required term (term.words numeral required) := by
  cases term with
  | constant value => exact .constant (Value.HasLiteral.printed printable)
  | name name => exact .name printable
  | unary operator operand =>
      have operandPrinted := Term.Printable.printed operand printable operator.level
      exact printed_within fun _ le => .unary le operandPrinted
  | middle operator left right =>
      have leftPrinted := Term.Printable.printed left printable.1 operator.level
      have rightPrinted := Term.Printable.printed right printable.2 (operator.level + 1)
      exact printed_within fun _ le => .middle le leftPrinted rightPrinted
  | member object name =>
      have objectPrinted := Term.Printable.printed object printable.1 suffixLevel
      exact printed_within fun _ le => .member le objectPrinted printable.2
  | element object index =>
      have objectPrinted := Term.Printable.printed object printable.1 suffixLevel
      have indexPrinted := Term.Printable.printed index printable.2 0
      exact printed_within fun _ le => .element le objectPrinted indexPrinted
  | array elements =>
      obtain ⟨rows, rfl, same, rowsPrinted⟩ := Term.AllPrintable.printed elements printable
      rw [Term.words, ← same]
      exact .array rowsPrinted
  | call callee arguments =>
      have calleePrinted := Term.Printable.printed callee printable.1 suffixLevel
      obtain ⟨rows, rfl, same, rowsPrinted⟩ := Term.AllPrintable.printed arguments printable.2
      rw [Term.words, ← same]
      exact printed_within fun _ le => .call le calleePrinted rowsPrinted

theorem Term.AllPrintable.printed (terms : List Term)
    (printable : Term.AllPrintable numeral terms) :
    ∃ rows : List (Term × List Word), rows.map Prod.fst = terms ∧
      rows.map Prod.snd = Term.allWords numeral terms ∧
        ∀ row ∈ rows, Printed 0 row.1 row.2 := by
  cases terms with
  | nil => exact ⟨[], rfl, rfl, by simp⟩
  | cons term rest =>
      have termPrinted := Term.Printable.printed term printable.1 0
      obtain ⟨rows, terms, words, rowsPrinted⟩ := Term.AllPrintable.printed rest printable.2
      refine ⟨(term, term.words numeral 0) :: rows, by simp [terms], ?_, ?_⟩
      · simp [words, Term.allWords]
      · intro row member
        rcases List.mem_cons.mp member with rfl | member
        · exact termPrinted
        · exact rowsPrinted row member

end

end ScriptEngine
