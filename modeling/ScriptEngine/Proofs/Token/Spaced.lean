import Mathlib
import ScriptEngine.Proofs.Grammar.Printing
import ScriptEngine.Proofs.Token.Recognition

/-!
# Words in a row

A word that the lexer takes for a token of its kind whatever blank follows it is
such a token in every row of words with spaces between them.
-/

set_option autoImplicit false

namespace ScriptEngine

/-- What can stand behind a word. -/
inductive Parted : List Char → Prop where
  | nothing : Parted []
  | space (more : List Char) : Parted (' ' :: more)

/-- The lexer takes the word for a token of its kind, whatever blank follows. -/
def Word.Stands (word : Word) : Prop :=
  ∃ first rest, word.lexeme.toList = first :: rest ∧
    ∀ nested after, Parted after →
      Lexeme.first nested first (rest ++ after) = (.token word.kind, rest.length)

private theorem takeWhile_parted {holds : Char → Bool} (stops : holds ' ' = false)
    {front after : List Char} (all : front.all holds = true) (parted : Parted after) :
    (front ++ after).takeWhile holds = front := by
  rw [List.takeWhile_append_of_pos (by simpa using all)]
  cases parted <;> simp [stops]

private theorem dropWhile_parted {holds : Char → Bool} (stops : holds ' ' = false)
    {front after : List Char} (all : front.all holds = true) (parted : Parted after) :
    (front ++ after).dropWhile holds = after := by
  rw [List.dropWhile_append_of_pos (by simpa using all)]
  cases parted <;> simp [stops]

/-!
## Names and numbers
-/

private theorem first_ordinary {nested : Bool} {first : Char} {rest : List Char}
    (ordinary : (Lexeme.isWordStart first || first.isDigit) = true) :
    Lexeme.first nested first rest =
      if first.isDigit then (.token .number, Lexeme.numberLength rest)
      else
        (.token (.ofWord (String.ofList (first :: rest.takeWhile Lexeme.isWordCharacter))),
          (rest.takeWhile Lexeme.isWordCharacter).length) := by
  have unquoted : ¬(first = '"' || first = '\'') = true := by
    intro quoted
    rcases (by simpa using quoted : first = '"' ∨ first = '\'') with rfl | rfl
    · exact absurd ordinary (by decide)
    · exact absurd ordinary (by decide)
  unfold Lexeme.first
  split
  case h_22 =>
    rw [if_neg unquoted]
    split
    · rfl
    · next plain => rw [if_pos (by simpa [plain] using ordinary)]
  all_goals exact absurd ordinary (by decide)

private theorem not_isDigit_of_isWordStart {first : Char}
    (starts : Lexeme.isWordStart first = true) : first.isDigit = false := by
  by_cases underscore : first = '_'
  · subst underscore
    decide
  · simp only [Lexeme.isWordStart, Char.isAlpha, Char.isUpper, Char.isLower, Char.isDigit] at *
    grind

private theorem first_word {nested : Bool} {first : Char} {rest after : List Char}
    (starts : Lexeme.isWordStart first = true) (all : rest.all Lexeme.isWordCharacter = true)
    (parted : Parted after) :
    Lexeme.first nested first (rest ++ after) =
      (.token (.ofWord (String.ofList (first :: rest))), rest.length) := by
  have taken := takeWhile_parted (by decide) all parted
  rw [first_ordinary (by simp [starts]), if_neg (by simp [not_isDigit_of_isWordStart starts]),
    taken]

theorem Word.stands_name {name : String} (identifier : isIdentifier name = true) :
    (Word.name name).Stands := by
  unfold isIdentifier at identifier
  cases spelled : name.toList with
  | nil => simp [spelled] at identifier
  | cons first rest =>
      simp only [spelled, Bool.and_eq_true, beq_iff_eq] at identifier
      obtain ⟨⟨starts, all⟩, kind⟩ := identifier
      refine ⟨first, rest, spelled, fun nested after parted => ?_⟩
      rw [first_word starts all parted, ← spelled, String.ofList_toList, kind]
      rfl

theorem Word.stands_keyword {word : Word}
    (keyword : (word.lexeme, word.kind) ∈ TokenKind.keywords) : word.Stands := by
  have spelled : ∀ entry ∈ TokenKind.keywords, ∃ first rest, entry.1.toList = first :: rest ∧
      Lexeme.isWordStart first = true ∧ rest.all Lexeme.isWordCharacter = true ∧
        TokenKind.ofWord (String.ofList (first :: rest)) = entry.2 := by
    intro entry member
    fin_cases member <;> exact ⟨_, _, rfl, rfl, rfl, rfl⟩
  obtain ⟨first, rest, same, starts, all, kind⟩ := spelled _ keyword
  refine ⟨first, rest, same, fun nested after parted => ?_⟩
  rw [first_word starts all parted, kind]

/-- A numeral is digits, and perhaps a point with digits behind it. -/
private theorem isNumeral_cases {characters : List Char} (numeral : isNumeral characters = true) :
    ∃ digit rest, characters = digit :: rest ∧ digit.isDigit = true ∧
      (rest.all Char.isDigit = true ∨ ∃ whole tenth further,
        rest = whole ++ '.' :: tenth :: further ∧ whole.all Char.isDigit = true ∧
          tenth.isDigit = true ∧ further.all Char.isDigit = true) := by
  have all : (characters.takeWhile Char.isDigit).all Char.isDigit = true := List.all_takeWhile
  have parts : characters.takeWhile Char.isDigit ++ characters.dropWhile Char.isDigit =
      characters := List.takeWhile_append_dropWhile
  unfold isNumeral at numeral
  generalize characters.takeWhile Char.isDigit = whole at all parts numeral
  generalize characters.dropWhile Char.isDigit = fraction at parts numeral
  cases whole with
  | nil => simp at numeral
  | cons digit whole =>
      simp only [List.all_cons, Bool.and_eq_true] at all
      refine ⟨digit, whole ++ fraction, parts.symm, all.1, ?_⟩
      simp only [List.isEmpty_cons, Bool.not_false, Bool.true_and] at numeral
      split at numeral
      · exact .inl (by simpa using all.2)
      · next tenth further =>
          simp only [Bool.and_eq_true] at numeral
          exact .inr ⟨whole, tenth, further, rfl, all.2, numeral.1, numeral.2⟩
      · cases numeral

theorem Word.stands_number {characters : List Char} (numeral : isNumeral characters = true) :
    (Word.number characters).Stands := by
  obtain ⟨digit, rest, rfl, isDigit, spelled⟩ := isNumeral_cases numeral
  refine ⟨digit, rest, String.toList_ofList, fun nested after parted => ?_⟩
  rw [first_ordinary (by simp [isDigit]), if_pos isDigit]
  refine Prod.ext rfl ?_
  change Lexeme.numberLength (rest ++ after) = rest.length
  unfold Lexeme.numberLength
  rcases spelled with all | ⟨whole, tenth, further, rfl, all, tenthDigit, furtherAll⟩
  · rw [takeWhile_parted (by decide) all parted, dropWhile_parted (by decide) all parted]
    cases parted <;> rfl
  · have digits : ∀ character ∈ whole, character.isDigit = true := by simpa using all
    have point : ('.' : Char).isDigit = false := by decide
    rw [List.append_assoc, List.takeWhile_append_of_pos digits,
      List.dropWhile_append_of_pos digits]
    simp [point, tenthDigit, takeWhile_parted (by decide) furtherAll parted]
    omega

/-!
## Texts
-/

theorem Word.stands_text {quote : Char} (quoted : quote = '"' ∨ quote = '\'') (value : String) :
    (Word.text quote value).Stands := by
  have plain : quote ≠ '\\' := by rcases quoted with rfl | rfl <;> decide
  refine ⟨quote, TextLiteral.escape quote value.toList ++ [quote], String.toList_ofList,
    fun nested after _ => ?_⟩
  have inside := TextLiteral.Inside.escape plain value.toList
  rw [List.append_assoc, List.singleton_append]
  generalize TextLiteral.escape quote value.toList = body at inside
  have closed := (Lexeme.closing?_eq_some_iff plain).mpr ⟨body, after, rfl, rfl, inside⟩
  rw [Lexeme.first_quote quoted, closed]
  simp [Word.text]

theorem TextLiteral.value_escape {quote : Char} (quoted : quote = '"' ∨ quote = '\'')
    (text : String) :
    TextLiteral.value (String.ofList (quote :: TextLiteral.escape quote text.toList ++ [quote])) =
      text := by
  have narrow : quote.utf8Size = 1 := by rcases quoted with rfl | rfl <;> decide
  have notNewline : quote ≠ 'n' := by rcases quoted with rfl | rfl <;> decide
  have notTab : quote ≠ 't' := by rcases quoted with rfl | rfl <;> decide
  simp [TextLiteral.value, TextLiteral.inside, narrow,
    TextLiteral.resolve_escape quote notNewline notTab]

/-!
## All words of printed expressions
-/

theorem LiteralPrinted.stands {value : Value} {word : Word} (printed : LiteralPrinted value word) :
    word.Stands := by
  cases printed with
  | number numeral => exact Word.stands_number numeral
  | text quoted => exact Word.stands_text quoted _
  | trueWord | falseWord | noneWord => exact Word.stands_keyword (by decide)

theorem UnaryOperator.stands_word (operator : UnaryOperator) : operator.word.Stands := by
  cases operator with
  | minus =>
      refine ⟨'-', [], rfl, fun nested after parted => ?_⟩
      cases parted <;> rfl
  | not => exact Word.stands_keyword (by decide)

theorem MiddleOperator.stands_word (operator : MiddleOperator) : operator.word.Stands := by
  cases operator with
  | logical operator =>
      cases operator <;> exact Word.stands_keyword (by decide)
  | binary operator =>
      cases operator with
      | contained => exact Word.stands_keyword (by decide)
      | multiply | divide | modulo => exact ⟨_, [], rfl, fun _ _ _ => rfl⟩
      | equal | notEqual | lessThanOrEqual | greaterThanOrEqual =>
          exact ⟨_, ['='], rfl, fun _ _ _ => rfl⟩
      | add | subtract | lessThan | greaterThan =>
          refine ⟨_, [], rfl, fun nested after parted => ?_⟩
          cases parted <;> rfl

private theorem mem_separated {rows : List (List Word)} {word : Word}
    (member : word ∈ Word.separated rows) : word = .comma ∨ ∃ row ∈ rows, word ∈ row := by
  induction rows with
  | nil => simp [Word.separated] at member
  | cons row rest ih =>
      cases rest with
      | nil => exact .inr ⟨row, by simp, by simpa [Word.separated] using member⟩
      | cons next rest =>
          simp only [Word.separated, List.intercalate_cons_cons, List.append_assoc,
            List.mem_append, List.mem_singleton] at member ih
          rcases member with member | rfl | member
          · exact .inr ⟨row, by simp, member⟩
          · exact .inl rfl
          · rcases ih member with rfl | ⟨other, found, member⟩
            · exact .inl rfl
            · exact .inr ⟨other, List.mem_cons_of_mem _ found, member⟩

theorem Printed.stands {required : Nat} {term : Term} {words : List Word}
    (printed : Printed required term words) : ∀ word ∈ words, word.Stands := by
  have symbol {kind : TokenKind} {lexeme : String} {first : Char}
      (spelled : lexeme.toList = [first])
      (reads : ∀ nested after, Lexeme.first nested first after = (.token kind, 0)) :
      (⟨kind, lexeme⟩ : Word).Stands :=
    ⟨first, [], spelled, fun nested after _ => reads nested after⟩
  have leftParenthesis : Word.leftParenthesis.Stands := symbol rfl fun _ _ => rfl
  have rightParenthesis : Word.rightParenthesis.Stands := symbol rfl fun _ _ => rfl
  have leftBracket : Word.leftBracket.Stands := symbol rfl fun _ _ => rfl
  have rightBracket : Word.rightBracket.Stands := symbol rfl fun _ _ => rfl
  have comma : Word.comma.Stands := symbol rfl fun _ _ => rfl
  have dot : Word.dot.Stands := symbol rfl fun _ _ => rfl
  have separated {rows : List (Term × List Word)}
      (stand : ∀ row ∈ rows, ∀ word ∈ row.2, word.Stands) :
      ∀ word ∈ Word.separated (rows.map Prod.snd), word.Stands := by
    intro word member
    rcases mem_separated member with rfl | ⟨words, found, member⟩
    · exact comma
    · obtain ⟨row, inRows, rfl⟩ := List.mem_map.mp found
      exact stand row inRows word member
  induction printed with
  | enclosed _ ih => simpa [or_imp, forall_and] using ⟨leftParenthesis, ih, rightParenthesis⟩
  | constant literal => simpa using literal.stands
  | name identifier => simpa using Word.stands_name identifier
  | unary _ _ ih => simpa using ⟨UnaryOperator.stands_word _, ih⟩
  | middle _ _ _ leftIH rightIH =>
      simpa [or_imp, forall_and] using ⟨leftIH, MiddleOperator.stands_word _, rightIH⟩
  | member _ _ identifier ih =>
      simpa [or_imp, forall_and] using ⟨ih, dot, Word.stands_name identifier⟩
  | element _ _ _ objectIH indexIH =>
      simpa [or_imp, forall_and] using ⟨objectIH, leftBracket, indexIH, rightBracket⟩
  | array _ ih =>
      simpa [or_imp, forall_and] using ⟨leftBracket, separated ih, rightBracket⟩
  | call _ _ _ calleeIH ih =>
      simpa [or_imp, forall_and] using ⟨calleeIH, leftParenthesis, separated ih, rightParenthesis⟩

/-!
## Rows of words
-/

/-- The kind and the lexeme of a token. -/
def Token.word (token : Token) : Word :=
  ⟨token.kind, token.lexeme⟩

/-- The lexer takes the word for a token of its kind inside of so many brackets, whatever
blank follows. -/
def Word.StandsIn (nesting : Nat) (word : Word) : Prop :=
  ∃ first rest, word.lexeme.toList = first :: rest ∧
    ∀ after, Parted after →
      Lexeme.first (0 < nesting) first (rest ++ after) = (.token word.kind, rest.length)

/-- Every word stands inside of the brackets that are open behind the words before it. -/
def Word.RowStands : Nat → List Word → Prop
  | _, [] => True
  | nesting, word :: words =>
      word.StandsIn nesting ∧ RowStands (Lexeme.nestingAfter nesting word.kind) words

theorem Word.Stands.standsIn {word : Word} (stands : word.Stands) (nesting : Nat) :
    word.StandsIn nesting := by
  obtain ⟨first, rest, spelled, reads⟩ := stands
  exact ⟨first, rest, spelled, fun after parted => reads _ after parted⟩

theorem Word.rowStands {words : List Word} (stand : ∀ word ∈ words, word.Stands) (nesting : Nat) :
    Word.RowStands nesting words := by
  induction words generalizing nesting with
  | nil => trivial
  | cons word words ih =>
      exact ⟨(stand word (by simp)).standsIn nesting,
        ih (fun other member => stand other (List.mem_cons_of_mem _ member)) _⟩

/-- The tokens of words that stand from an offset on, with a space between every two. -/
def Word.placed : Nat → List Word → List Token
  | _, [] => []
  | offset, word :: words =>
      ⟨word.kind, word.lexeme, Span.between offset (offset + utf8Length word.lexeme.toList)⟩ ::
        placed (offset + utf8Length word.lexeme.toList + 1) words

theorem Word.map_word_placed (offset : Nat) (words : List Word) :
    (Word.placed offset words).map Token.word = words := by
  induction words generalizing offset with
  | nil => rfl
  | cons word words ih => exact congrArg (word :: ·) (ih _)

/-- The tokens of words with spaces between them, with the end of the source. -/
def Word.scanned (offset : Nat) (words : List Word) : List LexicalItem :=
  (Word.placed offset words).map .ok ++
    [.ok ⟨.endOfSource, "", Span.between (offset + utf8Length (Word.spaced words).toList)
      (offset + utf8Length (Word.spaced words).toList)⟩]

private theorem scanFrom_word {word : Word} {nesting : Nat} (stands : word.StandsIn nesting)
    (offset : Nat) {after : List Char} (parted : Parted after) :
    LexicalItem.scanFrom nesting offset 0 (word.lexeme.toList ++ after) =
      .ok ⟨word.kind, word.lexeme,
        Span.between offset (offset + utf8Length word.lexeme.toList)⟩ ::
        LexicalItem.scanFrom (Lexeme.nestingAfter nesting word.kind)
          (offset + utf8Length word.lexeme.toList) 0 after := by
  obtain ⟨first, rest, spelled, reads⟩ := stands
  have whole : String.ofList (first :: rest) = word.lexeme := by
    rw [← spelled, String.ofList_toList]
  rw [spelled, List.cons_append, LexicalItem.scanFrom, reads after parted]
  simp [whole, LexicalItem.scanFrom_skipped _ _ rest.length]

private theorem scanFrom_space (nesting offset : Nat) (after : List Char) :
    LexicalItem.scanFrom nesting offset 0 (' ' :: after) =
      LexicalItem.scanFrom nesting (offset + 1) 0 after := rfl

private theorem scanFrom_row {words : List Word} {nesting : Nat}
    (stand : Word.RowStands nesting words) (offset : Nat) :
    LexicalItem.scanFrom nesting offset 0 (Word.spaced words).toList =
      Word.scanned offset words := by
  induction words generalizing nesting offset with
  | nil => rfl
  | cons word rest ih =>
      cases rest with
      | nil =>
          have scanned := scanFrom_word stand.1 offset .nothing
          rw [List.append_nil] at scanned
          simp [Word.spaced, Word.scanned, Word.placed, scanned, LexicalItem.scanFrom]
      | cons next rest =>
          have scanned := scanFrom_word stand.1 offset
            (.space (Word.spaced (next :: rest)).toList)
          have scannedRest := ih stand.2 (offset + utf8Length word.lexeme.toList + 1)
          rw [scanFrom_space, scannedRest] at scanned
          have spelled : (Word.spaced (word :: next :: rest)).toList =
              word.lexeme.toList ++ ' ' :: (Word.spaced (next :: rest)).toList := by
            simp [Word.spaced, String.intercalate_cons_cons]
          have length : utf8Length (Word.spaced (word :: next :: rest)).toList =
              utf8Length word.lexeme.toList + 1 +
                utf8Length (Word.spaced (next :: rest)).toList := by
            rw [spelled, utf8Length_append, utf8Length]
            have narrow : (' ' : Char).utf8Size = 1 := rfl
            omega
          rw [Word.scanned, length, spelled, scanned]
          simp [Word.scanned, Word.placed, Nat.add_assoc]

/-- The tokens of words with spaces between them are these words, and nothing is left
behind them. -/
theorem scan_row {words : List Word} (stand : Word.RowStands 0 words) :
    LexicalItem.scan (Word.spaced words) = Word.scanned 0 words :=
  scanFrom_row stand 0

theorem scan_spaced {words : List Word} (stand : ∀ word ∈ words, word.Stands) :
    LexicalItem.scan (Word.spaced words) = Word.scanned 0 words :=
  scan_row (Word.rowStands stand 0)

end ScriptEngine
