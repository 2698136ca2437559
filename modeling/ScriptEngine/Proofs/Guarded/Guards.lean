import ScriptEngine.Proofs.Grammar.Places
import ScriptEngine.Token.Listing

/-!
# What reading relies on

A program that reads a source cuts texts out of it by their spans, adds up positions that
are words of 32 bits, and takes every numeral for a number. Each of these can fail, and is
written here so that it does: there may be no text between two bytes, a position may not fit
into a word, and characters need not spell a number. For the tokens of a source that is short
enough all of it succeeds.
-/

set_option autoImplicit false

namespace ScriptEngine

/-- Why reading would break off, although the source is not to blame. -/
inductive Fault where
  /-- Two characters have been put back already, and there is no room for a third one. -/
  | putBackFull
  /-- There is no text where a span says. -/
  | textMissing
  /-- A position or a number of brackets does not fit into a word. -/
  | wordExceeded
  /-- A token that was looked at is not there when it is to be taken. -/
  | tokenLost
  /-- The text of a numeral is no number. -/
  | numberUnreadable
  /-- A call, an index or a member access was to begin with some other token. -/
  | suffixUnknown
  /-- A production has called itself, through others or as the next pass of a loop, and no
  token has been taken in between. -/
  | standstill
deriving DecidableEq, Repr

/-!
## Stretches of bytes
-/

/-- The characters behind the first `count` bytes, if a character begins there. -/
def dropBytes? : Nat → List Char → Option (List Char)
  | 0, characters => some characters
  | _ + 1, [] => none
  | count + 1, character :: rest =>
      if character.utf8Size ≤ count + 1 then dropBytes? (count + 1 - character.utf8Size) rest
      else none

/-- The characters of the first `count` bytes, if these are whole characters. -/
def takeBytes? : Nat → List Char → Option (List Char)
  | 0, _ => some []
  | _ + 1, [] => none
  | count + 1, character :: rest =>
      if character.utf8Size ≤ count + 1 then
        (takeBytes? (count + 1 - character.utf8Size) rest).map (character :: ·)
      else none

/-- The characters from one byte up to another one, if both stand between characters. -/
def betweenBytes? (start stop : Nat) (characters : List Char) : Option (List Char) :=
  if start ≤ stop then (dropBytes? start characters).bind (takeBytes? (stop - start)) else none

/-- Behind its first character a stretch is shorter by the bytes of this character. -/
private theorem exists_count (character : Char) (front : List Char) :
    ∃ count, utf8Length (character :: front) = count + 1 ∧ character.utf8Size ≤ count + 1 ∧
      count + 1 - character.utf8Size = utf8Length front := by
  have size := character.utf8Size_pos
  rw [utf8Length]
  exact ⟨character.utf8Size + utf8Length front - 1, by omega, by omega, by omega⟩

theorem dropBytes?_append (front back : List Char) :
    dropBytes? (utf8Length front) (front ++ back) = some back := by
  induction front with
  | nil => cases back <;> rfl
  | cons character front ih =>
      obtain ⟨count, same, fits, rest⟩ := exists_count character front
      rw [same, List.cons_append, dropBytes?, if_pos fits, rest, ih]

theorem takeBytes?_append (front back : List Char) :
    takeBytes? (utf8Length front) (front ++ back) = some front := by
  induction front with
  | nil => cases back <;> rfl
  | cons character front ih =>
      obtain ⟨count, same, fits, rest⟩ := exists_count character front
      rw [same, List.cons_append, takeBytes?, if_pos fits, rest, ih, Option.map_some]

theorem betweenBytes?_append (front middle back : List Char) :
    betweenBytes? (utf8Length front) (utf8Length front + utf8Length middle)
      (front ++ (middle ++ back)) = some middle := by
  rw [betweenBytes?, if_pos (Nat.le_add_right _ _), dropBytes?_append, Option.bind_some,
    Nat.add_sub_cancel_left, takeBytes?_append]

/-!
## Spans
-/

namespace Span

/-- Where the span stops, if that is a word. -/
def stop? (span : Span) : Option UInt32 :=
  if span.start.toNat + span.length.toNat < 2 ^ 32 then some span.stop else none

/-- The smallest span that covers both, if no position exceeds a word on the way. -/
def merge? (left right : Span) : Option Span := do
  let leftStop ← left.stop?
  let rightStop ← right.stop?
  let start := min left.start right.start
  let stop := max leftStop rightStop
  if start ≤ stop then some ⟨start, stop - start⟩ else none

/-- The text of the source where the span says. -/
def text? (source : String) (span : Span) : Option String := do
  let stop ← span.stop?
  let characters ← betweenBytes? span.start.toNat stop.toNat source.toList
  return String.ofList characters

variable {source : String} {left right span : Span}

theorem stop?_of_within (short : source.utf8ByteSize < 2 ^ 32) (within : span.Within source) :
    span.stop? = some span.stop :=
  if_pos (Nat.lt_of_le_of_lt within short)

theorem toNat_stop (short : source.utf8ByteSize < 2 ^ 32) (within : span.Within source) :
    span.stop.toNat = span.start.toNat + span.length.toNat := by
  unfold Within at within
  have added : span.stop.toNat = (span.start.toNat + span.length.toNat) % 2 ^ 32 :=
    UInt32.toNat_add _ _
  omega

/-- Spans of a short source can be merged: the first of the starts is not behind the last of
the stops. -/
theorem merge?_of_within (short : source.utf8ByteSize < 2 ^ 32) (leftWithin : left.Within source)
    (rightWithin : right.Within source) : left.merge? right = some (left.merge right) := by
  have ordered : min left.start right.start ≤ max left.stop right.stop := by
    have start := start_merge left right
    have leftStop := toNat_stop short leftWithin
    have stop : (max left.stop right.stop).toNat = max left.stop.toNat right.stop.toNat := by
      change (if left.stop ≤ right.stop then right.stop else left.stop).toNat = _
      rw [Nat.max_def]
      simp only [UInt32.le_iff_toNat_le]
      split <;> rfl
    rw [UInt32.le_iff_toNat_le, stop]
    change (left.merge right).start.toNat ≤ _
    omega
  rw [merge?, stop?_of_within short leftWithin, stop?_of_within short rightWithin]
  exact if_pos ordered

/-- A stretch of a short source is found by a span that begins and ends where it does. -/
theorem text?_of_spelled {front middle back : List Char}
    (spelled : source.toList = front ++ (middle ++ back)) (short : source.utf8ByteSize < 2 ^ 32)
    (start : span.start.toNat = utf8Length front)
    (length : span.length.toNat = utf8Length middle) :
    span.text? source = some (String.ofList middle) := by
  have size : utf8Length source.toList = source.utf8ByteSize := by
    rw [← LexicalItem.utf8ByteSize_ofList, String.ofList_toList]
  rw [spelled, utf8Length_append, utf8Length_append] at size
  have within : span.Within source := by
    unfold Within
    omega
  have cut := betweenBytes?_append front middle back
  rw [text?, stop?_of_within short within]
  simp only [Option.bind_eq_bind, Option.bind_some, toNat_stop short within, start, length,
    spelled, cut, Option.pure_def]

end Span

/-!
## Tokens
-/

namespace DecimalText

/-- Digits, at least one of them, spell a number, also with a point and more digits behind. -/
theorem isSome_number? {digit : Char} {whole fraction : List Char} (isDigit : digit.isDigit = true)
    (wholeDigits : ∀ next ∈ whole, next.isDigit = true)
    (fractionDigits : ∀ next ∈ fraction, next.isDigit = true) {point : List Char}
    (pointed : point = [] ∧ fraction = [] ∨ point = ['.']) :
    (number? (digit :: whole ++ (point ++ fraction))).isSome = true := by
  have all : ∀ next ∈ digit :: whole, next.isDigit = true :=
    List.forall_mem_cons.mpr ⟨isDigit, wholeDigits⟩
  -- The digits in front end at the point, or where the numeral does.
  have stops : (point ++ fraction).takeWhile Char.isDigit = [] ∧
      (point ++ fraction).dropWhile Char.isDigit = point ++ fraction := by
    rcases pointed with ⟨rfl, rfl⟩ | rfl
    · exact ⟨rfl, rfl⟩
    · exact ⟨rfl, rfl⟩
  have front : (digit :: whole ++ (point ++ fraction)).takeWhile Char.isDigit = digit :: whole := by
    rw [List.takeWhile_append_of_pos all, stops.1, List.append_nil]
  have back : (digit :: whole ++ (point ++ fraction)).dropWhile Char.isDigit =
      point ++ fraction := by
    rw [List.dropWhile_append_of_pos all, stops.2]
  have magnitude : (magnitude? (digit :: whole ++ (point ++ fraction))).isSome = true := by
    unfold magnitude?
    rw [front, back]
    rcases pointed with ⟨rfl, rfl⟩ | rfl
    · simp [exponent?]
    · simp [exponent?, List.takeWhile_eq_self_iff.mpr fractionDigits,
        List.dropWhile_eq_nil_iff.mpr fractionDigits]
  unfold number?
  split
  · next same =>
      cases (List.cons.inj same).1
      cases isDigit
  · next same =>
      cases (List.cons.inj same).1
      cases isDigit
  · unfold unsigned?
    dsimp only
    split
    · rfl
    · split
      · rfl
      · exact magnitude

end DecimalText

namespace Lexeme

variable {nested : Bool} {character : Char} {rest : List Char} {count : Nat}

/-- A number begins with a digit. -/
theorem first_number (found : first nested character rest = (.token .number, count)) :
    character.isDigit = true ∧ numberLength rest = count := by
  have symbol {alone withEqual : TokenKind} (noAlone : alone ≠ .number)
      (noEqual : withEqual ≠ .number) :
      operator alone withEqual rest ≠ (.token .number, count) := by
    unfold operator
    split <;> simp [noAlone, noEqual]
  unfold first at found
  split at found
  case h_19 => split at found <;> cases found
  case h_20 => split at found <;> cases found
  case h_22 =>
    split at found
    · split at found <;> cases found
    · split at found
      · next digit =>
          cases found
          exact ⟨digit, rfl⟩
      · split at found
        · have word := TokenKind.ofWord_mem
            (String.ofList (character :: rest.takeWhile isWordCharacter))
          rw [Lexeme.token.inj (Prod.mk.inj found).1] at word
          exact absurd word (by decide)
        · split at found <;> cases found
  all_goals first | exact (symbol (by decide) (by decide) found).elim | cases found

end Lexeme

namespace Token

/-- Every numeral of a source is a number. -/
theorem isSome_number? {source : String} {token : Token}
    (member : .ok token ∈ LexicalItem.scan source)
    (isNumber : token.kind = .number) :
    (DecimalText.number? token.lexeme.toList).isSome = true := by
  obtain ⟨nested, digit, more, rest, lexeme, found⟩ :=
    LexicalItem.exists_found member (by simp [isNumber])
  rw [isNumber] at found
  obtain ⟨isDigit, length⟩ := Lexeme.first_number found
  rw [lexeme, String.toList_ofList]
  rcases (Lexeme.numberLength_length_iff rest).mp length with
    ⟨digits, _⟩ | ⟨whole, tenth, further, rfl, digits, isTenth, taken⟩
  · have nothing : ∀ next ∈ ([] : List Char), next.isDigit = true := by simp
    simpa using DecimalText.isSome_number? isDigit digits nothing (.inl ⟨rfl, rfl⟩)
  · have fraction := ((Lexeme.takeWhile_length_iff rest).mp taken).1
    exact DecimalText.isSome_number? isDigit digits
      (List.forall_mem_cons.mpr ⟨isTenth, fraction⟩) (.inr rfl)

/-- The lexeme of a token stands in the source where its span says. -/
theorem text?_span {source : String} (short : source.utf8ByteSize < 2 ^ 32) {token : Token}
    (member : .ok token ∈ LexicalItem.scan source) :
    token.span.text? source = some token.lexeme := by
  obtain ⟨before, behind, row⟩ := List.append_of_mem member
  obtain ⟨front, gap, lexeme, back, placed⟩ :=
    (LexicalItem.scan_tiles short).placed before _ behind row
  have named : token.lexeme = lexeme := by
    by_cases last : behind = []
    · obtain ⟨_, _, items, _, _, _, _, scanned⟩ := LexicalItem.exists_passes_scan source
      rw [row, last] at scanned
      obtain ⟨_, ends⟩ := List.append_inj' scanned rfl
      rw [(placed.last last).1, Except.ok.inj (List.cons.inj ends).1]
    · rw [(placed.inner last).2.2, String.ofList_toList]
  have bytes (text : String) : utf8Length text.toList = text.utf8ByteSize := by
    rw [← LexicalItem.utf8ByteSize_ofList, String.ofList_toList]
  have spelled : source.toList = (front ++ gap).toList ++ (lexeme.toList ++ back.toList) := by
    rw [placed.split]
    simp
  have cut : token.span.text? source = some (String.ofList lexeme.toList) :=
    Span.text?_of_spelled spelled short (placed.start.trans (bytes _).symm)
      (placed.length.trans (bytes _).symm)
  rw [cut, String.ofList_toList, named]

end Token

end ScriptEngine
