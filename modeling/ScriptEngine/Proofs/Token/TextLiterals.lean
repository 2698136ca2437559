import Mathlib
import ScriptEngine.Proofs.Token.Spaced
import ScriptEngine.Proofs.Token.Passing

/-!
# Text literals round-trip

A text that is written as a literal is read as one token, wherever the lexer begins a
lexeme and whatever follows, and that token stands for the text. In the other direction,
every token for a text has been closed by a quote that is not escaped, and what it stands
for goes by the same marks that closed it.
-/

set_option autoImplicit false

namespace ScriptEngine

/-- The literal in `quote`s that stands for the text. -/
def TextLiteral.quoted (quote : Char) (text : String) : List Char :=
  quote :: (TextLiteral.escape quote text.toList ++ [quote])

/-- The lexer and the reader of the literal agree on what is escaped between its quotes. -/
structure Token.Agrees (token : Token) (quote : Char) (body : List Char) : Prop where
  quoted : quote = '"' ∨ quote = '\''
  lexeme : token.lexeme = String.ofList (quote :: (body ++ [quote]))
  closed : ∀ after, Lexeme.closing? quote (body ++ quote :: after) = some (body.length + 1)
  guarded : (quote, false) ∉ TextLiteral.marked false body
  ends : TextLiteral.marked false (body ++ [quote]) =
    TextLiteral.marked false body ++ [(quote, false)]
  text : token.text =
    String.ofList ((TextLiteral.marked false body).filterMap TextLiteral.meaning?)

namespace TextLiteral

variable {quote : Char}

theorem value_quoted (quoted : quote = '"' ∨ quote = '\'') (text : String) :
    value (String.ofList (TextLiteral.quoted quote text)) = text :=
  value_escape quoted text

theorem value_of_inside (quoted : quote = '"' ∨ quote = '\'') {body : List Char}
    (inside : Inside quote body) :
    value (String.ofList (quote :: (body ++ [quote]))) =
      String.ofList ((marked false body).filterMap meaning?) := by
  have narrow : quote.utf8Size = 1 := by rcases quoted with rfl | rfl <;> decide
  rw [← inside.resolve_eq]
  simp [value, TextLiteral.inside, narrow]

end TextLiteral

namespace LexicalItem

open TextLiteral

variable {quote : Char}

theorem ne_backslash (quoted : quote = '"' ∨ quote = '\'') : quote ≠ '\\' := by
  rcases quoted with rfl | rfl <;> decide

/-- Wherever a lexeme begins, a literal is one token. -/
theorem scanFrom_quoted (quoted : quote = '"' ∨ quote = '\'') (text : String)
    (nesting offset : Nat) (after : List Char) :
    scanFrom nesting offset 0 (TextLiteral.quoted quote text ++ after) =
      .ok ⟨.text, String.ofList (TextLiteral.quoted quote text),
        Span.between offset (offset + utf8Length (TextLiteral.quoted quote text))⟩ ::
        scanFrom nesting (offset + utf8Length (TextLiteral.quoted quote text)) 0 after := by
  have plain := ne_backslash quoted
  have inside := Inside.escape plain text.toList
  have closed := (Lexeme.closing?_eq_some_iff plain).mpr
    ⟨escape quote text.toList, after, rfl, rfl, inside⟩
  have found : Lexeme.first (0 < nesting) quote (escape quote text.toList ++ [quote] ++ after) =
      (.token .text, (escape quote text.toList ++ [quote]).length) := by
    rw [List.append_assoc, List.singleton_append, Lexeme.first_quote quoted, closed]
    simp
  exact scanFrom_item found rfl

/-- The lexer and the reader of a token for a text agree on what is escaped in it. -/
theorem exists_agrees {source : String} {token : Token} (member : .ok token ∈ scan source)
    (isText : token.kind = .text) : ∃ quote body, token.Agrees quote body := by
  obtain ⟨nested, quote, more, rest, lexeme, found⟩ := exists_found member (by simp [isText])
  rw [isText] at found
  obtain ⟨quoted, closed⟩ := Lexeme.first_text found
  have plain := ne_backslash quoted
  obtain ⟨body, after, same, length, inside⟩ := (Lexeme.closing?_eq_some_iff plain).mp closed
  obtain rfl : more = body ++ [quote] := by
    rw [← List.singleton_append, ← List.append_assoc] at same
    exact List.append_inj_left same (by simpa using length)
  refine ⟨quote, body, {
    quoted, lexeme
    closed := fun after => (Lexeme.closing?_eq_some_iff plain).mpr ⟨body, after, rfl, rfl, inside⟩
    guarded := inside.guarded
    ends := by rw [marked_append, inside.ends]; rfl
    text := by rw [Token.text, lexeme, value_of_inside quoted inside] }⟩

/-- A text that is escaped between quotes, where the lexer begins a lexeme, is one token that
spans the literal and stands for the text. And in every token for a text the closing quote is
the first one that is not escaped, so no backslash is left over in front of it. -/
theorem scan_textLiterals :
    (∀ (quote : Char) (text : String) (front after : List Char) (items : List LexicalItem)
      (nesting : Nat), quote = '"' ∨ quote = '\'' →
      Ready front (TextLiteral.quoted quote text ++ after) items nesting →
        scan (String.ofList (front ++ (TextLiteral.quoted quote text ++ after))) =
          items ++ .ok ⟨.text, String.ofList (TextLiteral.quoted quote text),
            Span.between (utf8Length front)
              (utf8Length (front ++ TextLiteral.quoted quote text))⟩ ::
            scanFrom nesting (utf8Length (front ++ TextLiteral.quoted quote text)) 0 after ∧
        value (String.ofList (TextLiteral.quoted quote text)) = text) ∧
    ∀ (source : String) (token : Token), .ok token ∈ scan source → token.kind = .text →
      ∃ quote body, token.Agrees quote body := by
  constructor
  · intro quote text front after items nesting quoted ready
    rw [ready.scan, scanFrom_quoted quoted, utf8Length_append]
    exact ⟨rfl, value_quoted quoted text⟩
  · intro source token member isText
    exact exists_agrees member isText

/-- A quote and a backslash behind a parenthesis and a comment. -/
theorem scan_textLiterals_parenthesis :
    ∃ opening token, scan (String.ofList (['(', '#', 'g', '\n'] ++
        (TextLiteral.quoted '\'' "'\\" ++ [')']))) =
          [.ok opening, .ok token] ++ scanFrom 1 (utf8Length (['(', '#', 'g', '\n'] ++
            TextLiteral.quoted '\'' "'\\")) 0 [')'] ∧
      token.text = "'\\" ∧ ∃ quote body, token.Agrees quote body := by
  have passes : Passes (['#', 'g', '\n'] ++ (TextLiteral.quoted '\'' "'\\" ++ [')'])) 0 0
      ([] ++ ('(' :: ([] ++ []))) _ 1 :=
    .item .nothing rfl rfl .nothing
  have comment : Gap true (TextLiteral.quoted '\'' "'\\" ++ [')']) ('#' :: (['g'] ++ ['\n'])) :=
    .comment (by simp) (by simp) (.blank rfl (fun _ => rfl) .nothing)
  have ready : Ready ['(', '#', 'g', '\n'] (TextLiteral.quoted '\'' "'\\" ++ [')']) _ 1 :=
    ⟨_, _, rfl, passes, comment⟩
  obtain ⟨scanned, text⟩ := scan_textLiterals.1 _ _ _ _ _ _ (.inr rfl) ready
  have agrees := scan_textLiterals.2
    (String.ofList (['(', '#', 'g', '\n'] ++ (TextLiteral.quoted '\'' "'\\" ++ [')'])))
  rw [scanned] at agrees
  exact ⟨_, _, scanned, text, agrees _ (List.mem_append_right _ List.mem_cons_self) rfl⟩

end LexicalItem

end ScriptEngine
