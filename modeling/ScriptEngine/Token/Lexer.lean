import ScriptEngine.Source.Lines
import ScriptEngine.Text.Blank
import ScriptEngine.Token.Basic

/-!
# Splitting a text into tokens

A lexeme is recognised from the first character of the text that is left and as
many of the following characters as belong to it. Recognition looks at nothing
else, except that a newline separates statements only outside of brackets. The
text is cut into lexemes from left to right until nothing is left, so what the
tokens do not cover is blanks and comments.
-/

set_option autoImplicit false

namespace ScriptEngine

/-- What a stretch of source turns out to be. -/
inductive Lexeme where
  | blank
  | token (kind : TokenKind)
  | invalid (cause : LexicalCause)
deriving DecidableEq, Repr

namespace Lexeme

def isWordCharacter (character : Char) : Bool :=
  character.isAlphanum || character = '_'

def isWordStart (character : Char) : Bool :=
  character.isAlpha || character = '_'

/-- How many characters there are up to the quote that closes a literal,
including that quote. A backslash hides the character after it. -/
def closing? (quote : Char) : List Char → Option Nat
  | [] => none
  | [character] => if character ≠ '\\' && character = quote then some 1 else none
  | character :: next :: rest =>
      if character = '\\' then (closing? quote rest).map (· + 2)
      else if character = quote then some 1
      else (closing? quote (next :: rest)).map (· + 1)

/-- How many of the characters after the first digit continue a number: digits,
and at most once a point that has a digit behind it. -/
def numberLength (rest : List Char) : Nat :=
  let whole := rest.takeWhile Char.isDigit
  match rest.dropWhile Char.isDigit with
  | '.' :: digit :: more =>
      if digit.isDigit then
        whole.length + 2 + (more.takeWhile Char.isDigit).length
      else whole.length
  | _ => whole.length

def operator (alone withEqual : TokenKind) (rest : List Char) : Lexeme × Nat :=
  if rest.head? = some '=' then (.token withEqual, 1) else (.token alone, 0)

/-- The lexeme that begins with a character, and how many of the characters
after it belong to it. -/
def first (nested : Bool) (character : Char) (rest : List Char) : Lexeme × Nat :=
  match character with
  | '(' => (.token .leftParenthesis, 0)
  | '[' => (.token .leftBracket, 0)
  | '\x7b' => (.token .leftBrace, 0)
  | ')' => (.token .rightParenthesis, 0)
  | ']' => (.token .rightBracket, 0)
  | '\x7d' => (.token .rightBrace, 0)
  | ',' => (.token .comma, 0)
  | '.' => (.token .dot, 0)
  | ':' => (.token .colon, 0)
  | ';' => (.token .semicolon, 0)
  | '*' => (.token .star, 0)
  | '/' => (.token .slash, 0)
  | '%' => (.token .percent, 0)
  | '+' => operator .plus .plusEqual rest
  | '-' => operator .minus .minusEqual rest
  | '=' => operator .equal .equalEqual rest
  | '<' => operator .lessThan .lessThanEqual rest
  | '>' => operator .greaterThan .greaterThanEqual rest
  | '!' =>
      if rest.head? = some '=' then (.token .bangEqual, 1)
      else (.invalid (.unrecognized '!'), 0)
  | '\n' => if nested then (.blank, 0) else (.token .newline, 0)
  | '#' => (.blank, (rest.takeWhile (· ≠ '\n')).length)
  | _ =>
      if character = '"' || character = '\'' then
        match closing? character rest with
        | some count => (.token .text, count)
        | none => (.invalid .unclosedText, rest.length)
      else if character.isDigit then
        (.token .number, numberLength rest)
      else if isWordStart character then
        let letters := rest.takeWhile isWordCharacter
        (.token (.ofWord (String.ofList (character :: letters))), letters.length)
      else if isBlank character then
        (.blank, 0)
      else
        (.invalid (.unrecognized character), 0)

/-- The number of open brackets after a token. A closing bracket without an
opening one changes nothing. -/
def nestingAfter (nesting : Nat) : TokenKind → Nat
  | .leftParenthesis | .leftBracket | .leftBrace => nesting + 1
  | .rightParenthesis | .rightBracket | .rightBrace => nesting - 1
  | _ => nesting

end Lexeme

/-- A token, or a stretch of source that is none. -/
abbrev LexicalItem := Except LexicalError Token

namespace LexicalItem

def span : LexicalItem → Span
  | .ok token => token.span
  | .error failure => failure.span

/-- The items of the characters behind the first `skipped` ones, which belong to
a lexeme that has been read. The character after them stands at `offset` inside
of `nesting` open brackets. The last item marks the end of the source. -/
def scanFrom (nesting offset skipped : Nat) : List Char → List LexicalItem
  | [] => [.ok ⟨.endOfSource, "", Span.between offset offset⟩]
  | character :: rest =>
      match skipped with
      | skipped + 1 => scanFrom nesting offset skipped rest
      | 0 =>
          let (lexeme, count) := Lexeme.first (0 < nesting) character rest
          let characters := character :: rest.take count
          let next := offset + utf8Length characters
          match lexeme with
          | .blank => scanFrom nesting next count rest
          | .token kind =>
              .ok ⟨kind, String.ofList characters, Span.between offset next⟩ ::
                scanFrom (Lexeme.nestingAfter nesting kind) next count rest
          | .invalid cause =>
              .error ⟨cause, Span.between offset next⟩ :: scanFrom nesting next count rest

theorem scanFrom_skipped (nesting offset skipped : Nat) (characters : List Char) :
    scanFrom nesting offset skipped characters =
      scanFrom nesting offset 0 (characters.drop skipped) := by
  induction characters generalizing skipped with
  | nil => simp [scanFrom]
  | cons character rest ih =>
      cases skipped with
      | zero => rfl
      | succ skipped =>
          rw [scanFrom, List.drop_succ_cons]
          exact ih skipped

def scan (source : String) : List LexicalItem :=
  scanFrom 0 0 0 source.toList

end LexicalItem

end ScriptEngine
