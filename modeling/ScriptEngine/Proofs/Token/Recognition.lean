import Mathlib
import ScriptEngine.Proofs.Token.Escapes

/-!
# What a lexeme depends on

The lexer looks at most two characters past the end of a lexeme. So a lexeme that was
recognised in front of some characters is recognised in front of others too, if these
begin with nothing that could continue it (`Lexeme.first_of_apart`).
-/

set_option autoImplicit false

namespace ScriptEngine

/-- A word is a keyword or an identifier. -/
theorem TokenKind.ofWord_mem (word : String) :
    TokenKind.ofWord word ∈ .identifier :: TokenKind.keywords.map Prod.snd := by
  unfold TokenKind.ofWord
  cases found : TokenKind.keywords.lookup word with
  | none => exact List.mem_cons_self
  | some kind =>
      obtain ⟨before, behind, same, _⟩ := List.lookup_eq_some_iff.mp found
      rw [same]
      simp

namespace Lexeme

/-- What continues no lexeme that ends in front of it. -/
def Apart (characters : List Char) : Prop :=
  ∀ next ∈ characters.head?, isWordCharacter next = false ∧ next ≠ '.' ∧ next ≠ '='

theorem isWordCharacter_of_isDigit {character : Char} (digit : character.isDigit = true) :
    isWordCharacter character = true := by
  simp [isWordCharacter, Char.isAlphanum, digit]

theorem isWordCharacter_of_isWordStart {character : Char}
    (starts : isWordStart character = true) : isWordCharacter character = true := by
  rw [isWordStart, Bool.or_eq_true] at starts
  rcases starts with alpha | underscore
  · simp [isWordCharacter, Char.isAlphanum, alpha]
  · rw [isWordCharacter, underscore, Bool.or_true]

namespace Apart

variable {after : List Char}

theorem not_digit (apart : Apart after) : ∀ next ∈ after.head?, next.isDigit = false := by
  intro next head
  have stops := (apart next head).1
  by_contra digit
  rw [isWordCharacter_of_isDigit (by simpa using digit)] at stops
  cases stops

end Apart

variable {nested nested' : Bool} {character : Char} {more front back after : List Char}

/-!
## Words and numbers
-/

/-- A stretch is all that is taken if it ends where nothing more can be taken. -/
theorem takeWhile_length_iff {holds : Char → Bool} (rest : List Char) :
    ((more ++ rest).takeWhile holds).length = more.length ↔
      (∀ taken ∈ more, holds taken = true) ∧ ∀ next ∈ rest.head?, holds next = false := by
  induction more with
  | nil =>
      cases rest with
      | nil => simp
      | cons next rest => cases stops : holds next <;> simp [stops]
  | cons taken more ih =>
      cases keeps : holds taken with
      | true => simpa [keeps] using ih
      | false => simp [keeps]

theorem takeWhile_of_length {holds : Char → Bool} {rest : List Char}
    (found : ((more ++ rest).takeWhile holds).length = more.length) :
    (more ++ rest).takeWhile holds = more := by
  have taken := List.prefix_iff_eq_take.mp (List.takeWhile_prefix (l := more ++ rest) holds)
  rw [taken, found, List.take_left]

theorem takeWhile_of_apart {holds : Char → Bool}
    (stops : ∀ next ∈ after.head?, holds next = false)
    (found : ((more ++ (front ++ back)).takeWhile holds).length = more.length) :
    ((more ++ (front ++ after)).takeWhile holds).length = more.length := by
  rw [takeWhile_length_iff] at found ⊢
  refine ⟨found.1, ?_⟩
  cases front with
  | nil => exact stops
  | cons next front => exact found.2

theorem numberLength_digits {digits : List Char} (all : ∀ digit ∈ digits, digit.isDigit = true)
    (rest : List Char) : numberLength (digits ++ rest) = digits.length + numberLength rest := by
  unfold numberLength
  rw [List.takeWhile_append_of_pos all, List.dropWhile_append_of_pos all]
  dsimp only
  rw [List.length_append]
  split
  · split <;> omega
  · rfl

theorem numberLength_point (tenth : Char) (rest : List Char) :
    numberLength ('.' :: tenth :: rest) =
      if tenth.isDigit then 2 + (rest.takeWhile Char.isDigit).length else 0 := by
  have point : ('.' : Char).isDigit = false := by decide
  simp [numberLength, point]

theorem numberLength_other {rest : List Char}
    (stops : ∀ next ∈ rest.head?, next.isDigit = false ∧ next ≠ '.') : numberLength rest = 0 := by
  cases rest with
  | nil => rfl
  | cons next rest =>
      have stops := stops next rfl
      unfold numberLength
      rw [List.takeWhile_cons_of_neg (by simp [stops.1]),
        List.dropWhile_cons_of_neg (by simp [stops.1])]
      split
      · next same => exact absurd (List.cons.inj same).1 stops.2
      · rfl

/-- A number ends behind its whole part, or behind the digits that follow its point. -/
theorem numberLength_length_iff (rest : List Char) :
    numberLength (more ++ rest) = more.length ↔
      (∀ digit ∈ more, digit.isDigit = true) ∧ numberLength rest = 0 ∨
        ∃ whole tenth further, more = whole ++ '.' :: tenth :: further ∧
          (∀ digit ∈ whole, digit.isDigit = true) ∧ tenth.isDigit = true ∧
            ((further ++ rest).takeWhile Char.isDigit).length = further.length := by
  constructor
  · intro found
    have whole : ∀ digit ∈ more.takeWhile Char.isDigit, digit.isDigit = true :=
      fun digit member => List.all_eq_true.mp List.all_takeWhile digit member
    have parts : more.takeWhile Char.isDigit ++ more.dropWhile Char.isDigit = more :=
      List.takeWhile_append_dropWhile
    have stops := List.head?_dropWhile_not Char.isDigit more
    generalize more.takeWhile Char.isDigit = digits at whole parts
    generalize more.dropWhile Char.isDigit = tail at parts stops
    subst parts
    rw [List.append_assoc, numberLength_digits whole, List.length_append] at found
    have found : numberLength (tail ++ rest) = tail.length := by omega
    cases tail with
    | nil => exact .inl ⟨by simpa using whole, found⟩
    | cons point tail =>
        have noDigit : point.isDigit = false := by simpa using stops
        by_cases isPoint : point = '.'
        · subst isPoint
          cases tail with
          | nil =>
              -- A point alone is not taken, and with a digit more than the point is taken.
              rcases rest with _ | ⟨tenth, rest⟩
              · cases found
              · rw [List.singleton_append, numberLength_point, List.length_singleton] at found
                split at found <;> omega
          | cons tenth further =>
              rw [List.cons_append, List.cons_append, numberLength_point] at found
              split at found
              · next digit =>
                  simp only [List.length_cons] at found
                  exact .inr ⟨digits, tenth, further, rfl, whole, digit, by omega⟩
              · cases found
        · rw [List.cons_append, numberLength_other (by simp [noDigit, isPoint])] at found
          cases found
  · intro found
    rcases found with ⟨all, nothing⟩ | ⟨whole, tenth, further, rfl, all, digit, fraction⟩
    · rw [numberLength_digits all, nothing, Nat.add_zero]
    · rw [List.append_assoc, numberLength_digits all, List.cons_append, List.cons_append,
        numberLength_point, if_pos digit, fraction]
      simp only [List.length_append, List.length_cons]
      omega

theorem numberLength_le (rest : List Char) : numberLength rest ≤ rest.length := by
  have whole := (List.takeWhile_prefix (l := rest) Char.isDigit).length_le
  unfold numberLength
  dsimp only
  split
  · next digit more same =>
      split
      · have parts := congrArg List.length
          (List.takeWhile_append_dropWhile (p := Char.isDigit) (l := rest))
        have fraction := (List.takeWhile_prefix (l := more) Char.isDigit).length_le
        rw [same, List.length_append] at parts
        simp only [List.length_cons] at parts
        omega
      · exact whole
  · exact whole

/-- Digits in front of a number would continue it, and so would a point with a digit. -/
theorem numberLength_eq_zero_of_apart (front : List Char) (apart : Apart after)
    (nothing : numberLength (front ++ back) = 0) : numberLength (front ++ after) = 0 := by
  cases front with
  | nil =>
      refine numberLength_other fun next head => ?_
      exact ⟨apart.not_digit next head, (apart next head).2.1⟩
  | cons first front =>
      by_cases digit : first.isDigit = true
      · have all : ∀ taken ∈ [first], taken.isDigit = true := by simpa using digit
        have taken := numberLength_digits all (front ++ back)
        rw [List.singleton_append, ← List.cons_append, nothing, List.length_singleton] at taken
        omega
      · by_cases point : first = '.'
        · subst point
          cases front with
          | nil =>
              cases after with
              | nil => rfl
              | cons next after =>
                  have stops := apart.not_digit next rfl
                  rw [List.singleton_append, numberLength_point, if_neg (by simp [stops])]
          | cons tenth front =>
              rw [List.cons_append, List.cons_append, numberLength_point] at nothing ⊢
              split at nothing
              · omega
              · next noDigit => rw [if_neg noDigit]
        · exact numberLength_other (by simp [digit, point])

theorem numberLength_of_apart (apart : Apart after)
    (found : numberLength (more ++ (front ++ back)) = more.length) :
    numberLength (more ++ (front ++ after)) = more.length := by
  rw [numberLength_length_iff] at found ⊢
  rcases found with ⟨all, nothing⟩ | ⟨whole, tenth, further, same, all, digit, fraction⟩
  · exact .inl ⟨all, numberLength_eq_zero_of_apart front apart nothing⟩
  · exact .inr ⟨whole, tenth, further, same, all, digit,
      takeWhile_of_apart apart.not_digit fraction⟩

/-!
## Symbols and texts
-/

/-- An operator is alone where no equals sign follows, and takes an equals sign that does. -/
theorem operator_length_iff {alone withEqual kind : TokenKind} (rest : List Char) :
    operator alone withEqual (more ++ rest) = (.token kind, more.length) ↔
      more = [] ∧ alone = kind ∧ rest.head? ≠ some '=' ∨ more = ['='] ∧ withEqual = kind := by
  unfold operator
  cases more with
  | nil => by_cases equal : rest.head? = some '=' <;> simp [equal]
  | cons next more => by_cases equal : next = '=' <;> simp [equal, eq_comm, and_comm]

theorem operator_of_apart {alone withEqual kind : TokenKind} (apart : Apart after)
    (found : operator alone withEqual (more ++ (front ++ back)) = (.token kind, more.length)) :
    operator alone withEqual (more ++ (front ++ after)) = (.token kind, more.length) := by
  rw [operator_length_iff] at found ⊢
  rcases found with ⟨nothing, same, stops⟩ | equal
  · refine .inl ⟨nothing, same, ?_⟩
    cases front with
    | nil => exact fun head => (apart '=' head).2.2 rfl
    | cons next front => exact stops
  · exact .inr equal

theorem closing?_of_length {quote : Char} (plain : quote ≠ '\\')
    (found : closing? quote (more ++ back) = some more.length) :
    closing? quote (more ++ after) = some more.length := by
  obtain ⟨body, rest, same, length, inside⟩ := (closing?_eq_some_iff plain).mp found
  have literal : more = body ++ [quote] := by
    rw [← List.singleton_append, ← List.append_assoc] at same
    exact List.append_inj_left same (by simpa using length)
  rw [literal, closing?_eq_some_iff plain]
  exact ⟨body, after, by simp, by simp, inside⟩

theorem first_quote {quote : Char} (quoted : quote = '"' ∨ quote = '\'') (nested : Bool)
    (rest : List Char) :
    first nested quote rest =
      match closing? quote rest with
      | some count => (.token .text, count)
      | none => (.invalid .unclosedText, rest.length) := by
  rcases quoted with rfl | rfl <;> rfl

/-- How a token can begin: a newline and the quotes of a text are told apart from everything
else, and no lexeme is the end of the source. -/
theorem first_token {rest : List Char} {kind : TokenKind} {count : Nat}
    (found : first nested character rest = (.token kind, count)) :
    (character = '\n' ∧ nested = false ∧ kind = .newline) ∨
      ((character = '"' ∨ character = '\'') ∧ closing? character rest = some count ∧
        kind = .text) ∨ kind ∉ [.newline, .text, .endOfSource] := by
  have symbol {alone withEqual : TokenKind} (noAlone : alone ∉ [.newline, .text, .endOfSource])
      (noEqual : withEqual ∉ [.newline, .text, .endOfSource])
      (found : operator alone withEqual rest = (.token kind, count)) :
      kind ∉ [.newline, .text, .endOfSource] := by
    unfold operator at found
    split at found
    · cases found
      exact noEqual
    · cases found
      exact noAlone
  unfold first at found
  split at found
  case h_19 =>
    split at found
    · cases found
      exact .inr (.inr (by decide))
    · cases found
  case h_20 =>
    split at found
    · cases found
    · next outside =>
        cases found
        exact .inl ⟨rfl, by simpa using outside, rfl⟩
  case h_22 =>
    split at found
    · next quoted =>
        split at found
        · next closed =>
            cases found
            exact .inr (.inl ⟨by simpa using quoted, closed, rfl⟩)
        · cases found
    · split at found
      · cases found
        exact .inr (.inr (by decide))
      · split at found
        · have words : ∀ kind ∈ .identifier :: TokenKind.keywords.map Prod.snd,
              kind ∉ [.newline, .text, .endOfSource] := by decide
          have word := words _
            (TokenKind.ofWord_mem (String.ofList (character :: rest.takeWhile isWordCharacter)))
          rw [Lexeme.token.inj (Prod.mk.inj found).1] at word
          exact .inr (.inr word)
        · split at found <;> cases found
  all_goals first
    | exact .inr (.inr (symbol (by decide) (by decide) found))
    | cases found <;> exact .inr (.inr (by decide))

/-- A text begins with a quote and goes on to the one that closes it. -/
theorem first_text {rest : List Char} {count : Nat}
    (found : first nested character rest = (.token .text, count)) :
    (character = '"' ∨ character = '\'') ∧ closing? character rest = some count := by
  rcases first_token found with ⟨_, _, other⟩ | ⟨quoted, closed, _⟩ | other
  · cases other
  · exact ⟨quoted, closed⟩
  · exact (other (by decide)).elim

theorem first_newline_iff {rest : List Char} {kind : TokenKind} {count : Nat}
    (found : first nested character rest = (.token kind, count)) :
    kind = .newline ↔ character = '\n' := by
  constructor
  · intro newline
    rcases first_token found with ⟨same, _, _⟩ | ⟨_, _, other⟩ | other
    · exact same
    · rw [newline] at other
      cases other
    · exact (other (by simp [newline])).elim
  · rintro rfl
    cases nested <;> cases found
    rfl

/-- A newline is a token outside of brackets only. -/
theorem first_newline_outside {rest : List Char} {kind : TokenKind} {count : Nat}
    (found : first nested '\n' rest = (.token kind, count)) : nested = false := by
  cases nested <;> cases found
  rfl

theorem first_ne_endOfSource (nested : Bool) (character : Char) (rest : List Char) :
    (first nested character rest).1 ≠ .token .endOfSource := by
  intro ends
  rcases first_token (Prod.ext ends rfl : first nested character rest = (_, _)) with
    ⟨_, _, other⟩ | ⟨_, _, other⟩ | other
  · cases other
  · cases other
  · exact other (by decide)

/-- A lexeme is recognised in front of other characters too, if these begin with nothing
that continues a lexeme. What stands between it and them makes no difference. -/
theorem first_of_apart {kind : TokenKind}
    (found : first nested character (more ++ (front ++ back)) = (.token kind, more.length))
    (same : character = '\n' → nested' = nested) (apart : Apart after) :
    first nested' character (more ++ (front ++ after)) = (.token kind, more.length) := by
  unfold first at found
  split at found
  case h_20 =>
    obtain rfl := same rfl
    exact found
  case h_21 => cases found
  case h_19 =>
    cases more with
    | nil => split at found <;> cases found
    | cons next more => exact found
  case h_22 =>
    rw [first] <;> try assumption
    split at found
    · next quoted =>
        have plain : character ≠ '\\' := by
          rintro rfl
          cases quoted
        rw [if_pos quoted]
        split at found
        · next count closed =>
            obtain ⟨rfl, rfl⟩ : .text = kind ∧ count = more.length := by simpa using found
            rw [closing?_of_length plain closed]
        · cases found
    · next unquoted =>
        rw [if_neg unquoted]
        split at found
        · next digit =>
            obtain ⟨number, length⟩ := Prod.mk.inj found
            rw [if_pos digit, number, numberLength_of_apart apart length]
        · next noDigit =>
            rw [if_neg noDigit]
            split at found
            · next starts =>
                obtain ⟨word, length⟩ := Prod.mk.inj found
                have still := takeWhile_of_apart (fun next head => (apart next head).1) length
                rw [takeWhile_of_length length] at word
                rw [if_pos starts, takeWhile_of_length still]
                exact Prod.ext word rfl
            · split at found <;> cases found
  all_goals first | exact found | exact operator_of_apart apart found

end Lexeme

end ScriptEngine
