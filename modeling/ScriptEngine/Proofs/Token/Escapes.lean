import Mathlib
import ScriptEngine.Text.Literal
import ScriptEngine.Token.Lexer

/-!
# Escaped characters

Two readers go through a text literal: the lexer, which looks for the quote that closes it,
and `TextLiteral.resolve`, which drops the backslashes. Which characters a backslash hides
is said here once, by `TextLiteral.marked`, and both readers are shown to go by it. So they
never disagree about a character, however many backslashes stand in a row.
-/

set_option autoImplicit false

namespace ScriptEngine

namespace TextLiteral

/-- Characters are met one by one, or in pairs behind a backslash. -/
@[elab_as_elim]
theorem pairs_induction {motive : List Char → Prop} (nothing : motive [])
    (unpaired : motive ['\\']) (pair : ∀ next rest, motive rest → motive ('\\' :: next :: rest))
    (plain : ∀ character rest, character ≠ '\\' → motive rest → motive (character :: rest))
    (characters : List Char) : motive characters := by
  induction size : characters.length using Nat.strongRecOn generalizing characters with
  | ind _ ih =>
    cases characters with
    | nil => exact nothing
    | cons character rest =>
        by_cases backslash : character = '\\'
        · subst backslash
          cases rest with
          | nil => exact unpaired
          | cons next rest => exact pair next rest (ih _ (by simp [← size]) rest rfl)
        · exact plain character rest backslash (ih _ (by simp [← size]) rest rfl)

/-!
## Marks
-/

/-- Every character with whether it is escaped: it stands behind a backslash that is not
escaped itself. What is known of the first one is given. -/
def marked : Bool → List Char → List (Char × Bool)
  | _, [] => []
  | escaped, character :: rest =>
      (character, escaped) :: marked (!escaped && character == '\\') rest

/-- Whether a character behind these would be escaped. -/
def escapesNext (escaped : Bool) (characters : List Char) : Bool :=
  characters.foldl (fun escaped character => !escaped && character == '\\') escaped

theorem marked_append (escaped : Bool) (front back : List Char) :
    marked escaped (front ++ back) =
      marked escaped front ++ marked (escapesNext escaped front) back := by
  induction front generalizing escaped with
  | nil => rfl
  | cons character rest ih => simp [marked, escapesNext, ih]

theorem marked_pair (next : Char) (rest : List Char) :
    marked false ('\\' :: next :: rest) = ('\\', false) :: (next, true) :: marked false rest := rfl

theorem marked_plain {character : Char} (plain : character ≠ '\\') (rest : List Char) :
    marked false (character :: rest) = (character, false) :: marked false rest := by
  rw [marked, beq_false_of_ne plain, Bool.and_false]

theorem escapesNext_pair (next : Char) (rest : List Char) :
    escapesNext false ('\\' :: next :: rest) = escapesNext false rest := rfl

theorem escapesNext_plain {character : Char} (plain : character ≠ '\\') (rest : List Char) :
    escapesNext false (character :: rest) = escapesNext false rest := by
  rw [escapesNext, List.foldl_cons, beq_false_of_ne plain, Bool.and_false, escapesNext]

/-- What a character behind a backslash stands for. -/
def unescaped : Char → Char
  | 'n' => '\n'
  | 't' => '\t'
  | other => other

/-- What a marked character stands for. A backslash that escapes the next character stands
for nothing. -/
def meaning? : Char × Bool → Option Char
  | (character, true) => some (unescaped character)
  | (character, false) => if character = '\\' then none else some character

theorem resolve_plain {character : Char} (plain : character ≠ '\\') (rest : List Char) :
    resolve (character :: rest) = character :: resolve rest := by
  rw [resolve]
  all_goals grind

theorem resolve_pair (next : Char) (rest : List Char) :
    resolve ('\\' :: next :: rest) = unescaped next :: resolve rest := by
  unfold unescaped
  split
  · rw [resolve]
  · rw [resolve]
  · rw [resolve] <;> assumption

/-- Resolving goes by the marks. Only a backslash without a character behind it, if it is
not escaped itself, is left over. -/
theorem resolve_eq (characters : List Char) :
    resolve characters = (marked false characters).filterMap meaning? ++
      if escapesNext false characters then ['\\'] else [] := by
  induction characters using pairs_induction with
  | nothing => rfl
  | unpaired => rfl
  | pair next rest ih =>
      rw [resolve_pair, ih, marked_pair, escapesNext_pair]
      simp [meaning?]
  | plain character rest plain ih =>
      rw [resolve_plain plain, ih, marked_plain plain, escapesNext_plain plain]
      simp [meaning?, plain]

/-!
## Closing quotes
-/

/-- The inside of a literal: every quote in it is escaped, and no backslash is left to
escape the quote behind it. -/
structure Inside (quote : Char) (characters : List Char) : Prop where
  guarded : (quote, false) ∉ marked false characters
  ends : escapesNext false characters = false

namespace Inside

variable {quote : Char} {characters : List Char}

theorem nothing (quote : Char) : Inside quote [] :=
  ⟨List.not_mem_nil, rfl⟩

theorem pair_iff (plain : quote ≠ '\\') (next : Char) :
    Inside quote ('\\' :: next :: characters) ↔ Inside quote characters := by
  constructor
  · intro inside
    have guarded := inside.guarded
    rw [marked_pair] at guarded
    exact ⟨by simpa [plain] using guarded, inside.ends⟩
  · intro inside
    refine ⟨?_, inside.ends⟩
    rw [marked_pair]
    simpa [plain] using inside.guarded

theorem plain_iff {character : Char} (plain : character ≠ '\\') :
    Inside quote (character :: characters) ↔ character ≠ quote ∧ Inside quote characters := by
  constructor
  · intro inside
    have guarded := inside.guarded
    have ends := inside.ends
    rw [marked_plain plain] at guarded
    rw [escapesNext_plain plain] at ends
    have parts : quote ≠ character ∧ (quote, false) ∉ marked false characters := by
      simpa using guarded
    exact ⟨parts.1.symm, parts.2, ends⟩
  · intro ⟨other, inside⟩
    refine ⟨?_, ?_⟩
    · rw [marked_plain plain]
      simpa [other.symm] using inside.guarded
    · rw [escapesNext_plain plain]
      exact inside.ends

theorem escape (plain : quote ≠ '\\') (characters : List Char) :
    Inside quote (TextLiteral.escape quote characters) := by
  induction characters with
  | nil => exact .nothing quote
  | cons character rest ih =>
      unfold TextLiteral.escape
      split
      · exact (pair_iff plain _).mpr ih
      · split
        · exact (pair_iff plain _).mpr ih
        · split
          · exact (pair_iff plain _).mpr ih
          · next special =>
              simp only [Bool.or_eq_true, decide_eq_true_eq, not_or] at special
              exact (plain_iff special.1).mpr ⟨special.2, ih⟩

/-- Inside of a literal no backslash is left over. -/
theorem resolve_eq (inside : Inside quote characters) :
    resolve characters = (marked false characters).filterMap meaning? := by
  rw [TextLiteral.resolve_eq, inside.ends, if_neg Bool.false_ne_true, List.append_nil]

end Inside

end TextLiteral

namespace Lexeme

open TextLiteral

theorem closing?_pair (quote next : Char) (rest : List Char) :
    closing? quote ('\\' :: next :: rest) = (closing? quote rest).map (· + 2) := by
  rw [closing?, if_pos rfl]

theorem closing?_plain {quote character : Char} (plain : character ≠ '\\') (rest : List Char) :
    closing? quote (character :: rest) =
      if character = quote then some 1 else (closing? quote rest).map (· + 1) := by
  cases rest with
  | nil => simp [closing?, plain]
  | cons next rest => simp [closing?, plain]

theorem closing?_le {quote : Char} {characters : List Char} {count : Nat}
    (found : closing? quote characters = some count) : count ≤ characters.length := by
  induction characters using pairs_induction generalizing count with
  | nothing => cases found
  | unpaired => cases found
  | pair next rest ih =>
      rw [closing?_pair, Option.map_eq_some_iff] at found
      obtain ⟨fewer, found, rfl⟩ := found
      exact Nat.add_le_add_right (ih found) 2
  | plain character rest ordinary ih =>
      rw [closing?_plain ordinary] at found
      split at found
      · cases found
        exact Nat.le_add_left 1 _
      · rw [Option.map_eq_some_iff] at found
        obtain ⟨fewer, found, rfl⟩ := found
        exact Nat.add_le_add_right (ih found) 1

/-- The lexer closes a literal at the first quote that is not escaped. -/
theorem closing?_eq_some_iff {quote : Char} (plain : quote ≠ '\\') {characters : List Char}
    {count : Nat} :
    closing? quote characters = some count ↔
      ∃ body after, characters = body ++ quote :: after ∧ count = body.length + 1 ∧
        Inside quote body := by
  constructor
  · intro found
    induction characters using pairs_induction generalizing count with
    | nothing => cases found
    | unpaired => cases found
    | pair next rest ih =>
        rw [closing?_pair, Option.map_eq_some_iff] at found
        obtain ⟨fewer, found, rfl⟩ := found
        obtain ⟨body, after, rfl, rfl, inside⟩ := ih found
        exact ⟨'\\' :: next :: body, after, rfl, rfl, (Inside.pair_iff plain next).mpr inside⟩
    | plain character rest ordinary ih =>
        rw [closing?_plain ordinary] at found
        split at found
        · next same =>
            cases found
            exact ⟨[], rest, by rw [same]; rfl, rfl, .nothing quote⟩
        · next other =>
            rw [Option.map_eq_some_iff] at found
            obtain ⟨fewer, found, rfl⟩ := found
            obtain ⟨body, after, rfl, rfl, inside⟩ := ih found
            exact ⟨character :: body, after, rfl, rfl,
              (Inside.plain_iff ordinary).mpr ⟨other, inside⟩⟩
  · rintro ⟨body, after, rfl, rfl, inside⟩
    induction body using pairs_induction with
    | nothing =>
        rw [List.nil_append, closing?_plain plain, if_pos rfl]
        rfl
    | unpaired => cases inside.ends
    | pair next rest ih =>
        have found := ih ((Inside.pair_iff plain next).mp inside)
        rw [List.cons_append, List.cons_append, closing?_pair, found]
        rfl
    | plain character rest ordinary ih =>
        obtain ⟨other, inside⟩ := (Inside.plain_iff ordinary).mp inside
        rw [List.cons_append, closing?_plain ordinary, if_neg other, ih inside]
        rfl

end Lexeme

end ScriptEngine
