import ScriptEngine.Source.Span

/-!
# Lines

The table of the lines of a source text. Every line is the range of the byte
offsets that belong to it, its newline included; the last line of a text that
does not end with a newline also owns the offset just past its last byte.
Offsets that belong to no range are counted to the line after the last one.

Line numbers are 32-bit words, like the positions in spans. They wrap in a text
of 2 to the power of 32 lines, which no span can point into any more.
-/

set_option autoImplicit false

namespace ScriptEngine

/-- The number of bytes that the characters take up in a source text. -/
def utf8Length : List Char → Nat
  | [] => 0
  | character :: rest => character.utf8Size + utf8Length rest

/-- The bytes of two texts in a row are those of the one and those of the other. -/
theorem utf8Length_append (front back : List Char) :
    utf8Length (front ++ back) = utf8Length front + utf8Length back := by
  induction front with
  | nil => simp [utf8Length]
  | cons character rest ih => simp [utf8Length, ih, Nat.add_assoc]

/-- The lines of one text, first line first, as half-open offset ranges. -/
structure LineTable where
  ranges : List (Nat × Nat)
deriving Repr

namespace LineTable

/-- The ranges of the lines that end in `characters`, where the current line
began at `lineStart` and the first of the characters stands at `offset`. -/
def rangesFrom (lineStart offset : Nat) : List Char → List (Nat × Nat)
  | [] => if lineStart = offset then [] else [(lineStart, offset + 1)]
  | character :: rest =>
      let next := offset + character.utf8Size
      if character = '\n' then
        (lineStart, next) :: rangesFrom next next rest
      else
        rangesFrom lineStart next rest

/-- The table of a text. An empty text has one line. -/
def ofText (text : String) : LineTable :=
  match text.toList with
  | [] => ⟨[(0, 1)]⟩
  | characters => ⟨rangesFrom 0 0 characters⟩

def lastLine (table : LineTable) : UInt32 :=
  UInt32.ofNat (table.ranges.length + 1)

/-- How a line stands to an offset: behind it, in front of it, or around it. -/
def side (offset : Nat) (range : Nat × Nat) : Ordering :=
  if offset < range.1 then .gt
  else if range.2 ≤ offset then .lt
  else .eq

/-- The index of a line that owns the offset, among the lines from `low` up to but not
including `high`. The lines stand in order, so each look rules out one side of them. -/
@[semireducible]
def search (table : LineTable) (offset low high : Nat) : Option Nat :=
  if low < high then
    let middle := low + (high - low) / 2
    match table.ranges[middle]? with
    | none => none
    | some range =>
        match side offset range with
        | .eq => some middle
        | .lt => table.search offset (middle + 1) high
        | .gt => table.search offset low middle
  else none
termination_by high - low

/-- The line, counted from 1, that owns the offset. -/
def lineAt (table : LineTable) (offset : Nat) : UInt32 :=
  match table.search offset 0 table.ranges.length with
  | some index => UInt32.ofNat (index + 1)
  | none => table.lastLine

def lineOf (table : LineTable) (span : Span) : UInt32 :=
  table.lineAt span.start.toNat

end LineTable

end ScriptEngine
