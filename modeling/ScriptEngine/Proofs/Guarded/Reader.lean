import ScriptEngine.Proofs.Guarded.Guards

/-!
# Reading with characters put back

The lexer takes the characters of a source one by one, and puts back up to two of them that
do not belong to the lexeme that it is in. There is no room for a third one. The two are put
back only behind a number, and the first of them is a point then, which is a lexeme of its
own. So they are never met together with a third one, and the items that are read are those
of the source (`Reader.Reads.next`).
-/

set_option autoImplicit false

namespace ScriptEngine

/-- A character with the place where it stands. -/
structure PlacedChar where
  value : Char
  offset : Nat
deriving DecidableEq, Repr

/-- The place behind the character. -/
def PlacedChar.stop (character : PlacedChar) : Nat :=
  character.offset + character.value.utf8Size

/-- The characters that have not been read, the place of the first of them, those that have
been put back, and the number of brackets that are open. -/
structure Reader where
  ahead : List Char
  offset : Nat
  waiting : List PlacedChar
  nesting : Nat
deriving DecidableEq, Repr

namespace Reader

def ofSource (source : String) : Reader :=
  ⟨source.toList, 0, [], 0⟩

/-- The number of characters that are left. -/
def left (reader : Reader) : Nat :=
  reader.waiting.length + reader.ahead.length

/-- The next character. What was put back comes first. -/
def next? (reader : Reader) : Option (PlacedChar × Reader) :=
  match reader.waiting with
  | first :: rest => some (first, { reader with waiting := rest })
  | [] =>
      match reader.ahead with
      | [] => none
      | character :: rest =>
          some (⟨character, reader.offset⟩,
            { reader with ahead := rest, offset := reader.offset + character.utf8Size })

/-- Puts a character back, if there is room for it. -/
def putBack (reader : Reader) (character : PlacedChar) : Except Fault Reader :=
  if reader.waiting.length < 2 then
    .ok { reader with waiting := character :: reader.waiting }
  else
    .error .putBackFull

theorem left_of_next? {reader later : Reader} {character : PlacedChar}
    (found : reader.next? = some (character, later)) : later.left < reader.left := by
  unfold next? at found
  unfold left
  split at found
  · next same =>
      cases found
      simp [same]
  · split at found
    · cases found
    · next same =>
        cases found
        simp [same]

theorem left_of_putBack {reader later : Reader} {character : PlacedChar}
    (done : reader.putBack character = .ok later) : later.left = reader.left + 1 := by
  unfold putBack at done
  split at done
  · cases done
    simp [left, Nat.add_right_comm]
  · cases done

/-- Takes the character, if it is the expected one. -/
def takeIf (expected : Char) (reader : Reader) : Except Fault (Bool × Reader) :=
  match reader.next? with
  | none => .ok (false, reader)
  | some (character, later) =>
      if character.value = expected then .ok (true, later)
      else do return (false, ← later.putBack character)

/-- Goes to the end of the line. -/
def skipComment (reader : Reader) : Except Fault Reader :=
  match _ : reader.next? with
  | none => .ok reader
  | some (character, later) =>
      if character.value = '\n' then later.putBack character else later.skipComment
termination_by reader.left
decreasing_by exact left_of_next? ‹_›

theorem left_of_skipComment {reader later : Reader} (done : reader.skipComment = .ok later) :
    later.left ≤ reader.left := by
  fun_induction skipComment reader with
  | case1 reader found =>
      cases done
      exact Nat.le_refl _
  | case2 reader character next found newline =>
      have shorter := left_of_next? found
      rw [left_of_putBack done]
      exact shorter
  | case3 reader character next found other ih =>
      have shorter := left_of_next? found
      exact Nat.le_trans (ih done) (Nat.le_of_lt shorter)

/-- What a word goes on with, and where it stops. -/
def restOfWord (stop : Nat) (reader : Reader) : Except Fault ((List Char × Nat) × Reader) :=
  match _ : reader.next? with
  | none => .ok (([], stop), reader)
  | some (character, later) =>
      if Lexeme.isWordCharacter character.value then do
        let ((more, stop), last) ← later.restOfWord character.stop
        return ((character.value :: more, stop), last)
      else do return (([], stop), ← later.putBack character)
termination_by reader.left
decreasing_by exact left_of_next? ‹_›

/-- What a number goes on with, and where it stops. A second point is none of it. -/
def restOfNumber (seenPoint : Bool) (stop : Nat) (reader : Reader) :
    Except Fault ((List Char × Nat) × Reader) :=
  match _ : reader.next? with
  | none => .ok (([], stop), reader)
  | some (character, later) =>
      if character.value.isDigit then do
        let ((more, stop), last) ← later.restOfNumber seenPoint character.stop
        return ((character.value :: more, stop), last)
      else if character.value = '.' && !seenPoint then
        match _ : later.next? with
        | none => do return (([], stop), ← later.putBack character)
        | some (next, last) =>
            if next.value.isDigit then do
              let ((more, stop), last) ← last.restOfNumber true next.stop
              return ((character.value :: next.value :: more, stop), last)
            else do return (([], stop), ← (← last.putBack next).putBack character)
      else do return (([], stop), ← later.putBack character)
termination_by reader.left
decreasing_by
  · exact left_of_next? ‹_›
  · exact Nat.lt_trans (left_of_next? ‹_›) (left_of_next? ‹_›)

/-- What a text goes on with, and where it stops, if it is closed. -/
def restOfText (quote : Char) (escaped : Bool) (reader : Reader) :
    Option (List Char × Nat) × Reader :=
  match _ : reader.next? with
  | none => (none, reader)
  | some (character, later) =>
      if !escaped && character.value ≠ '\\' && character.value = quote then
        (some ([character.value], character.stop), later)
      else
        let (read, last) := later.restOfText quote (!escaped && character.value = '\\')
        (read.map fun (more, stop) => (character.value :: more, stop), last)
termination_by reader.left
decreasing_by exact left_of_next? ‹_›

end Reader

/-!
## Lexemes
-/

namespace Lexeme

/-- The characters that are lexemes of their own, whatever stands behind them. -/
def symbol? : Char → Option TokenKind
  | '(' => some .leftParenthesis
  | '[' => some .leftBracket
  | '\x7b' => some .leftBrace
  | ')' => some .rightParenthesis
  | ']' => some .rightBracket
  | '\x7d' => some .rightBrace
  | ',' => some .comma
  | '.' => some .dot
  | ':' => some .colon
  | ';' => some .semicolon
  | '*' => some .star
  | '/' => some .slash
  | '%' => some .percent
  | _ => none

/-- The characters that are lexemes alone and with an equals sign behind them. -/
def operator? : Char → Option (TokenKind × TokenKind)
  | '+' => some (.plus, .plusEqual)
  | '-' => some (.minus, .minusEqual)
  | '=' => some (.equal, .equalEqual)
  | '<' => some (.lessThan, .lessThanEqual)
  | '>' => some (.greaterThan, .greaterThanEqual)
  | _ => none

end Lexeme

namespace Reader

/-- The text of a span. Without a look at positions it is what was read there. -/
def textOf (source : String) (positions : Bool) (span : Span) (read : String) :
    Except Fault String :=
  if positions then
    match span.text? source with
    | some text => .ok text
    | none => .error .textMissing
  else
    .ok read

/-- The number of open brackets behind a token. With a look at positions it is a word. -/
def nestingBehind (positions : Bool) (nesting : Nat) (kind : TokenKind) : Except Fault Nat :=
  let nesting := Lexeme.nestingAfter nesting kind
  if positions && decide (2 ^ 32 ≤ nesting) then .error .wordExceeded else .ok nesting

/-- The next token of the source, or the next stretch that is none. `positions` says whether
what is too large for a word and what is no text of the source is looked after. -/
def nextItem (source : String) (positions : Bool) (reader : Reader) :
    Except Fault (LexicalItem × Reader) :=
  match _ : reader.next? with
  | none =>
      let size := source.utf8ByteSize
      .ok (.ok ⟨.endOfSource, "", Span.between size size⟩, reader)
  | some (⟨character, start⟩, later) =>
      let token (kind : TokenKind) (more : List Char) (stop : Nat) : LexicalItem :=
        .ok ⟨kind, String.ofList (character :: more), Span.between start stop⟩
      match Lexeme.symbol? character with
      | some kind => do
          let nesting ← nestingBehind positions later.nesting kind
          return (token kind [] (start + 1), { later with nesting })
      | none =>
          match Lexeme.operator? character with
          | some (alone, withEqual) => do
              let (equal, last) ← later.takeIf '='
              if equal then return (token withEqual ['='] (start + 2), last)
              else return (token alone [] (start + 1), last)
          | none =>
              if character = '!' then do
                let (equal, last) ← later.takeIf '='
                if equal then return (token .bangEqual ['='] (start + 2), last)
                else return (.error ⟨.unrecognized '!', Span.between start (start + 1)⟩, last)
              else if character = '\n' then
                if 0 < later.nesting then later.nextItem source positions
                else .ok (token .newline [] (start + 1), later)
              else if character = '#' then
                match _ : later.skipComment with
                | .error fault => .error fault
                | .ok last => last.nextItem source positions
              else if character = '"' || character = '\'' then
                match later.restOfText character false with
                | (some (more, stop), last) => .ok (token .text more stop, last)
                | (none, last) =>
                    .ok (.error ⟨.unclosedText, Span.between start source.utf8ByteSize⟩, last)
              else if character.isDigit then do
                let ((more, stop), last) ← later.restOfNumber false (start + character.utf8Size)
                return (token .number more stop, last)
              else if Lexeme.isWordStart character then do
                let ((more, stop), last) ← later.restOfWord (start + character.utf8Size)
                let span := Span.between start stop
                let word ← textOf source positions span (String.ofList (character :: more))
                return (.ok ⟨.ofWord word, word, span⟩, last)
              else if isBlank character then
                later.nextItem source positions
              else
                .ok (.error ⟨.unrecognized character,
                  Span.between start (start + character.utf8Size)⟩, later)
termination_by reader.left
decreasing_by
  · exact left_of_next? ‹_›
  · exact Nat.lt_of_le_of_lt (left_of_skipComment ‹_›) (left_of_next? ‹_›)
  · exact left_of_next? ‹_›

end Reader

end ScriptEngine
