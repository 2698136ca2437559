import ScriptEngine.Proofs.Grammar.StatementPrinting
import ScriptEngine.Proofs.Token.Spaced

/-!
# Words in lines

A newline is a token only outside of brackets. Expressions close every bracket that
they open, so the newlines between printed statements are tokens, and the lexer finds
all words of printed statements.
-/

set_option autoImplicit false

namespace ScriptEngine

/-!
## Brackets
-/

/-- The number of open brackets behind the words. -/
def Word.nestingAfter (nesting : Nat) (words : List Word) : Nat :=
  words.foldl (fun nesting word => Lexeme.nestingAfter nesting word.kind) nesting

/-- The words close every bracket that they open. -/
def Word.Balanced (words : List Word) : Prop :=
  ∀ nesting, Word.nestingAfter nesting words = nesting

namespace Word

theorem nestingAfter_append (nesting : Nat) (first second : List Word) :
    nestingAfter nesting (first ++ second) = nestingAfter (nestingAfter nesting first) second :=
  List.foldl_append

theorem Balanced.append {first second : List Word} (firstBalanced : Balanced first)
    (secondBalanced : Balanced second) : Balanced (first ++ second) := by
  intro nesting
  rw [nestingAfter_append, firstBalanced, secondBalanced]

theorem Balanced.cons {word : Word} {words : List Word}
    (neutral : ∀ nesting, Lexeme.nestingAfter nesting word.kind = nesting)
    (balanced : Balanced words) : Balanced (word :: words) := by
  intro nesting
  rw [nestingAfter, List.foldl_cons, neutral]
  exact balanced nesting

theorem Balanced.parentheses {words : List Word} (balanced : Balanced words) :
    Balanced (leftParenthesis :: words ++ [rightParenthesis]) := by
  intro nesting
  rw [nestingAfter_append]
  exact congrArg (Lexeme.nestingAfter · .rightParenthesis) (balanced (nesting + 1))

theorem Balanced.brackets {words : List Word} (balanced : Balanced words) :
    Balanced (leftBracket :: words ++ [rightBracket]) := by
  intro nesting
  rw [nestingAfter_append]
  exact congrArg (Lexeme.nestingAfter · .rightBracket) (balanced (nesting + 1))

theorem Balanced.separated {rows : List (List Word)} (balanced : ∀ row ∈ rows, Balanced row) :
    Balanced (separated rows) := by
  induction rows with
  | nil => exact fun _ => rfl
  | cons row rest ih =>
      have rowBalanced := balanced row List.mem_cons_self
      have restBalanced := ih fun other member => balanced other (List.mem_cons_of_mem _ member)
      cases rest with
      | nil => simpa [Word.separated] using rowBalanced
      | cons next rest =>
          have comma : Balanced (Word.comma :: Word.separated (next :: rest)) :=
            restBalanced.cons fun _ => rfl
          simpa [Word.separated] using rowBalanced.append comma

end Word

theorem LiteralPrinted.nestingAfter {value : Value} {word : Word}
    (printed : LiteralPrinted value word) (nesting : Nat) :
    Lexeme.nestingAfter nesting word.kind = nesting := by
  cases printed <;> rfl

theorem UnaryOperator.nestingAfter (operator : UnaryOperator) (nesting : Nat) :
    Lexeme.nestingAfter nesting operator.word.kind = nesting := by
  cases operator <;> rfl

theorem MiddleOperator.nestingAfter (operator : MiddleOperator) (nesting : Nat) :
    Lexeme.nestingAfter nesting operator.word.kind = nesting := by
  cases operator with
  | binary operator => cases operator <;> rfl
  | logical operator => cases operator <;> rfl

theorem AssignOperator.nestingAfter (operator : AssignOperator) (nesting : Nat) :
    Lexeme.nestingAfter nesting operator.word.kind = nesting := by
  cases operator <;> rfl

theorem Printed.balanced {required : Nat} {term : Term} {words : List Word}
    (printed : Printed required term words) : Word.Balanced words := by
  have nothing : Word.Balanced [] := fun _ => rfl
  have rows {elements : List (Term × List Word)}
      (balanced : ∀ element ∈ elements, Word.Balanced element.2) :
      Word.Balanced (Word.separated (elements.map Prod.snd)) :=
    Word.Balanced.separated (by simpa using fun words term => balanced (term, words))
  induction printed with
  | enclosed _ ih => exact ih.parentheses
  | constant literal => exact nothing.cons literal.nestingAfter
  | name => exact nothing.cons fun _ => rfl
  | @unary _ operator _ _ _ _ ih => exact ih.cons operator.nestingAfter
  | @middle _ operator _ _ _ _ _ _ _ leftIH rightIH =>
      exact leftIH.append (rightIH.cons operator.nestingAfter)
  | member _ _ _ ih => exact ih.append ((nothing.cons fun _ => rfl).cons fun _ => rfl)
  | element _ _ _ objectIH indexIH =>
      rw [List.append_assoc]
      exact objectIH.append indexIH.brackets
  | array _ ih => exact (rows ih).brackets
  | call _ _ _ calleeIH ih =>
      rw [List.append_assoc]
      exact calleeIH.append (rows ih).parentheses

/-!
## Rows outside of brackets
-/

/-- The lexer finds the words outside of brackets, and they close every bracket that
they open. -/
structure Word.Level (words : List Word) : Prop where
  stand : Word.RowStands 0 words
  closed : Word.nestingAfter 0 words = 0

namespace Word

theorem RowStands.append {nesting : Nat} {first second : List Word}
    (firstStands : RowStands nesting first)
    (secondStands : RowStands (nestingAfter nesting first) second) :
    RowStands nesting (first ++ second) := by
  induction first generalizing nesting with
  | nil => exact secondStands
  | cons word words ih => exact ⟨firstStands.1, ih firstStands.2 secondStands⟩

theorem Level.append {first second : List Word} (firstLevel : Level first)
    (secondLevel : Level second) : Level (first ++ second) where
  stand := firstLevel.stand.append (firstLevel.closed.symm ▸ secondLevel.stand)
  closed := by rw [nestingAfter_append, firstLevel.closed, secondLevel.closed]

theorem Level.of_balanced {words : List Word} (stand : ∀ word ∈ words, word.Stands)
    (balanced : Balanced words) : Level words :=
  ⟨Word.rowStands stand 0, balanced 0⟩

theorem level_nil : Level [] := ⟨trivial, rfl⟩

theorem Level.cons {word : Word} {words : List Word} (stands : word.Stands)
    (neutral : Lexeme.nestingAfter 0 word.kind = 0) (level : Level words) :
    Level (word :: words) where
  stand := ⟨stands.standsIn 0, neutral.symm ▸ level.stand⟩
  closed := by
    rw [nestingAfter, List.foldl_cons, neutral]
    exact level.closed

theorem Level.keyword {word : Word} {words : List Word}
    (keyword : (word.lexeme, word.kind) ∈ TokenKind.keywords) (level : Level words) :
    Level (word :: words) := by
  refine level.cons (stands_keyword keyword) ?_
  have neutral : ∀ entry ∈ TokenKind.keywords, Lexeme.nestingAfter 0 entry.2 = 0 := by decide
  exact neutral _ keyword

theorem Level.name {identifier : String} {words : List Word}
    (isName : isIdentifier identifier = true) (level : Level words) :
    Level (Word.name identifier :: words) :=
  level.cons (stands_name isName) rfl

/-- Newlines and semicolons stand outside of brackets. -/
theorem Level.separator {word : Word} {words : List Word} (separates : word ∈ separators)
    (level : Level words) : Level (word :: words) := by
  obtain rfl | rfl : word = newline ∨ word = semicolon := by simpa [separators] using separates
  · exact ⟨⟨⟨'\n', [], rfl, fun _ _ => rfl⟩, level.stand⟩, level.closed⟩
  · exact ⟨⟨⟨';', [], rfl, fun _ _ => rfl⟩, level.stand⟩, level.closed⟩

theorem Level.newline {words : List Word} (level : Level words) :
    Level (Word.newline :: words) :=
  level.separator List.mem_cons_self

theorem level_separators {words : List Word} (separate : ∀ word ∈ words, word ∈ separators) :
    Level words := by
  induction words with
  | nil => exact level_nil
  | cons word words ih =>
      exact (ih fun other member => separate other (List.mem_cons_of_mem _ member)).separator
        (separate word List.mem_cons_self)

theorem Level.separated {rows : List (List Word)} (level : ∀ row ∈ rows, Level row) :
    Level (separated rows) := by
  induction rows with
  | nil => exact level_nil
  | cons row rest ih =>
      have rowLevel := level row List.mem_cons_self
      have restLevel := ih fun other member => level other (List.mem_cons_of_mem _ member)
      cases rest with
      | nil => simpa [Word.separated] using rowLevel
      | cons next rest =>
          have comma : Level (Word.comma :: Word.separated (next :: rest)) :=
            restLevel.cons ⟨',', [], rfl, fun _ _ _ => rfl⟩ rfl
          simpa [Word.separated] using rowLevel.append comma

theorem level_end : Level [endWord] := level_nil.keyword (by decide)

end Word

/-!
## Printed statements
-/

theorem AssignOperator.stands_word (operator : AssignOperator) : operator.word.Stands := by
  cases operator with
  | set =>
      refine ⟨'=', [], rfl, fun nested after parted => ?_⟩
      cases parted <;> rfl
  | add | subtract => exact ⟨_, ['='], rfl, fun _ _ _ => rfl⟩

theorem Word.stands_digits {digits : List Char} (some : digits ≠ [])
    (all : digits.all Char.isDigit = true) : (Word.number digits).Stands := by
  have whole : digits.takeWhile Char.isDigit = digits :=
    List.takeWhile_eq_self_iff.mpr (List.all_eq_true.mp all)
  have nothing : digits.dropWhile Char.isDigit = [] :=
    List.dropWhile_eq_nil_iff.mpr (List.all_eq_true.mp all)
  exact Word.stands_number (by simp [isNumeral, whole, nothing, some])

theorem Printed.level {required : Nat} {term : Term} {words : List Word}
    (printed : Printed required term words) : Word.Level words :=
  .of_balanced printed.stands printed.balanced

theorem TargetPrinted.level {target : TargetTerm} {words : List Word}
    (printed : TargetPrinted target words) : Word.Level words := by
  cases printed with
  | name isName => exact Word.level_nil.name isName
  | member object isName => exact (Printed.member (Nat.le_refl _) object isName).level
  | element object index => exact (Printed.element (Nat.le_refl _) object index).level

/-- The name of a function with its parameters stands like a call of it. -/
private theorem level_head {identifier : String} {parameters : List String}
    (isName : isIdentifier identifier = true)
    (areNames : ∀ name ∈ parameters, isIdentifier name = true) :
    Word.Level (.name identifier :: Word.leftParenthesis :: Word.names parameters ++
      [Word.rightParenthesis]) := by
  let arguments : List (Term × List Word) :=
    parameters.map fun name => (.name name, [.name name])
  have printed : ∀ argument ∈ arguments, Printed 0 argument.1 argument.2 := by
    simpa [arguments] using fun name member => .name (areNames name member)
  have called := Printed.call (Nat.zero_le suffixLevel) (.name isName) printed
  simpa [arguments, Word.names, Function.comp_def] using called.level

theorem SimplePrinted.level {statement : StatementTerm} {words : List Word}
    (printed : SimplePrinted statement words) : Word.Level words := by
  cases printed with
  | expression value => exact value.level
  | @print values printed =>
      have rows : ∀ row ∈ values.map Prod.snd, Word.Level row := by
        simpa using fun row term member => (printed (term, row) member).level
      exact (Word.Level.separated rows).keyword (by decide)
  | @assign _ operator _ _ _ target value =>
      exact target.level.append (value.level.cons operator.stands_word (operator.nestingAfter 0))
  | breakLoop => exact Word.level_nil.keyword (by decide)
  | breakLoops some all =>
      exact (Word.level_nil.cons (Word.stands_digits some all) rfl).keyword (by decide)
  | continueLoop | returnNothing | pass => exact Word.level_nil.keyword (by decide)
  | returnValue value => exact value.level.keyword (by decide)
  | delete isName => exact (Word.level_nil.name isName).keyword (by decide)

theorem PhrasePrinted.level {phrase : Phrase} {words : List Word}
    (printed : PhrasePrinted phrase words) : Word.Level words := by
  induction printed with
  | simple simple => exact simple.level
  | branch condition _ _ linesIH moreIH =>
      exact ((condition.level.append linesIH.newline).append moreIH).keyword (by decide)
  | whileLoop condition _ ih => exact (condition.level.append ih).keyword (by decide)
  | forLoop isName iterable _ ih =>
      exact (((iterable.level.append ih).keyword (by decide)).name isName).keyword (by decide)
  | define isName areNames _ ih =>
      have head := (level_head isName areNames).append ih
      rw [List.append_assoc] at head
      exact head.keyword (by decide)
  | record isName _ ih => exact (ih.name isName).keyword (by decide)
  | line simple => exact simple.level.cons ⟨':', [], rfl, fun _ _ _ => rfl⟩ rfl
  | lines _ ih => exact (ih.append Word.level_end).newline
  | missing => exact Word.level_end
  | otherwise _ ih => exact ((ih.append Word.level_end).newline).keyword (by decide)
  | test condition _ _ linesIH moreIH =>
      exact ((condition.level.append linesIH.newline).append moreIH).keyword (by decide)
  | nothing leading => exact Word.level_separators leading
  | last leading _ ih => exact (Word.level_separators leading).append ih
  | followed leading _ separator _ ih moreIH =>
      exact ((Word.level_separators leading).append ih).append (moreIH.separator separator)

end ScriptEngine
