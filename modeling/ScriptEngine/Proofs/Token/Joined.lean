import Mathlib
import ScriptEngine.Proofs.Token.Passing
import ScriptEngine.Proofs.Token.Spaced

/-!
# Joined lexemes

Words that are single tokens on their own are the same tokens in a row with spaces between
them. This holds in particular for the lexemes of any source without newlines between
statements.
-/

set_option autoImplicit false

namespace ScriptEngine

/-- The lexer finds one token in the lexeme, which is no newline and is all of it. -/
structure Word.LexesAlone (word : Word) : Prop where
  inner : word.kind ≠ .newline
  scanned : LexicalItem.scan word.lexeme =
    [.ok ⟨word.kind, word.lexeme, Span.between 0 (utf8Length word.lexeme.toList)⟩,
      .ok ⟨.endOfSource, "",
        Span.between (utf8Length word.lexeme.toList) (utf8Length word.lexeme.toList)⟩]

theorem Parted.apart {after : List Char} (parted : Parted after) : Lexeme.Apart after := by
  cases parted with
  | nothing => rintro next ⟨⟩
  | space more =>
      rintro next ⟨⟩
      decide

/-- What is recognised somewhere as a token other than a newline stands in any row. -/
theorem Word.stands_of_first {word : Word} {nested : Bool} {character : Char}
    {more rest : List Char} (inner : word.kind ≠ .newline)
    (lexeme : word.lexeme = String.ofList (character :: more))
    (found : Lexeme.first nested character (more ++ rest) = (.token word.kind, more.length)) :
    word.Stands := by
  refine ⟨character, more, by rw [lexeme, String.toList_ofList], fun other after parted => ?_⟩
  have there : Lexeme.first nested character (more ++ ([] ++ rest)) =
      (.token word.kind, more.length) := found
  exact Lexeme.first_of_apart there
    (fun newline => (inner ((Lexeme.first_newline_iff found).mpr newline)).elim) parted.apart

/-- The tokens of a source without newlines between statements stand in any row. -/
theorem LexicalItem.stands_of_scan {source : String} {tokens : List Token} {ends : Token}
    (scanned : LexicalItem.scan source = (tokens ++ [ends]).map .ok)
    (inner : ∀ token ∈ tokens, token.kind ≠ .newline) : ∀ token ∈ tokens, token.word.Stands := by
  obtain ⟨front, gap, items, last, _, passes, _, found⟩ := LexicalItem.exists_passes_scan source
  rw [scanned, List.map_append] at found
  obtain rfl : tokens.map .ok = items := List.append_inj_left' found rfl
  intro token member
  obtain ⟨nested, character, more, rest, lexeme, recognised⟩ :=
    passes.exists_found (List.mem_map_of_mem member)
  exact Word.stands_of_first (inner token member) lexeme recognised

theorem Word.LexesAlone.stands {word : Word} (alone : word.LexesAlone) : word.Stands := by
  let token : Token :=
    ⟨word.kind, word.lexeme, Span.between 0 (utf8Length word.lexeme.toList)⟩
  have inner : ∀ other ∈ [token], other.kind ≠ .newline := by simpa [token] using alone.inner
  exact LexicalItem.stands_of_scan alone.scanned inner token List.mem_cons_self

/-- Words that are single tokens on their own are these tokens in a row with spaces between
them, each where its lexeme stands. So the lexemes of a source without newlines between
statements are found again when spaces part them. -/
theorem LexicalItem.scan_joined :
    (∀ words : List Word, (∀ word ∈ words, word.LexesAlone) →
      LexicalItem.scan (Word.spaced words) = Word.scanned 0 words) ∧
    ∀ (source : String) (tokens : List Token) (ends : Token),
      LexicalItem.scan source = (tokens ++ [ends]).map .ok →
      (∀ token ∈ tokens, token.kind ≠ .newline) →
      LexicalItem.scan (Word.spaced (tokens.map Token.word)) =
        Word.scanned 0 (tokens.map Token.word) := by
  constructor
  · intro words alone
    exact scan_spaced fun word member => (alone word member).stands
  · intro source tokens ends scanned inner
    refine scan_spaced fun word member => ?_
    obtain ⟨token, found, rfl⟩ := List.mem_map.mp member
    exact LexicalItem.stands_of_scan scanned inner token found

/-- A number in front of a point and a text with a newline, and a newline in brackets. -/
theorem LexicalItem.scan_joined_brackets :
    LexicalItem.scan (Word.spaced [⟨.number, "1"⟩, ⟨.dot, "."⟩, ⟨.text, "'\n'"⟩]) =
        Word.scanned 0 [⟨.number, "1"⟩, ⟨.dot, "."⟩, ⟨.text, "'\n'"⟩] ∧
      LexicalItem.scan (Word.spaced [⟨.leftBracket, "["⟩, ⟨.number, "1"⟩, ⟨.dot, "."⟩]) =
        Word.scanned 0 [⟨.leftBracket, "["⟩, ⟨.number, "1"⟩, ⟨.dot, "."⟩] := by
  have alone : ∀ word ∈ [⟨.number, "1"⟩, ⟨.dot, "."⟩, ⟨.text, "'\n'"⟩],
      Word.LexesAlone word := by
    intro word member
    fin_cases member <;> exact ⟨by decide, by decide +kernel⟩
  let tokens : List Token := [⟨.leftBracket, "[", Span.between 0 1⟩,
    ⟨.number, "1", Span.between 2 3⟩, ⟨.dot, ".", Span.between 3 4⟩]
  let ends : Token := ⟨.endOfSource, "", Span.between 8 8⟩
  have scanned : LexicalItem.scan "[\n1. # x" =
      (tokens ++ [ends]).map .ok := by
    decide +kernel
  exact ⟨LexicalItem.scan_joined.1 _ alone,
    LexicalItem.scan_joined.2 _ tokens _ scanned (by decide)⟩

end ScriptEngine
