/-!
# Text literals

What a quoted literal of the language stands for. A backslash takes the next
character with it: `\n` is a newline, `\t` a tab, and any other character
stands for itself. `escape` writes a text so that `resolve` reads it back.
-/

set_option autoImplicit false

namespace ScriptEngine.TextLiteral

/-- The characters that the inside of a literal stands for. A backslash at the
very end stands for itself. -/
def resolve : List Char → List Char
  | [] => []
  | '\\' :: [] => ['\\']
  | '\\' :: 'n' :: rest => '\n' :: resolve rest
  | '\\' :: 't' :: rest => '\t' :: resolve rest
  | '\\' :: other :: rest => other :: resolve rest
  | character :: rest => character :: resolve rest

/-- The inside of a literal: everything but its first and its last byte. There
is none when the two bytes are not whole characters of their own. -/
def inside (lexeme : List Char) : List Char :=
  match lexeme with
  | opening :: rest =>
      match rest.getLast? with
      | some closing =>
          if opening.utf8Size = 1 && closing.utf8Size = 1 then rest.dropLast else []
      | none => []
  | [] => []

/-- The text of a literal, given with its quotes. -/
def value (lexeme : String) : String :=
  String.ofList (resolve (inside lexeme.toList))

/-- The inside of a literal in `quote`s that stands for the given characters. -/
def escape (quote : Char) : List Char → List Char
  | [] => []
  | character :: rest =>
      if character = '\n' then '\\' :: 'n' :: escape quote rest
      else if character = '\t' then '\\' :: 't' :: escape quote rest
      else if character = '\\' || character = quote then
        '\\' :: character :: escape quote rest
      else character :: escape quote rest

/-- Resolving what was escaped gives the characters back, provided that the
quote is none of the letters that a backslash gives a meaning to. -/
theorem resolve_escape (quote : Char) (notNewline : quote ≠ 'n') (notTab : quote ≠ 't')
    (characters : List Char) : resolve (escape quote characters) = characters := by
  induction characters with
  | nil => rfl
  | cons character rest ih =>
      unfold escape
      split
      · next newline =>
          subst newline
          rw [resolve, ih]
      · split
        · next tab =>
            subst tab
            rw [resolve, ih]
        · split
          · next special =>
              rw [resolve, ih]
              all_goals grind
          · next plain =>
              rw [resolve, ih]
              all_goals grind

end ScriptEngine.TextLiteral
