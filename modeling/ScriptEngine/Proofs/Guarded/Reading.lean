import ScriptEngine.Proofs.Grammar.Accounted
import ScriptEngine.Proofs.Guarded.Reader

/-!
# What is read with characters put back

The reader stands in front of some characters when it has put back at most one of them, or
two of which the first is a point (`Reader.StandsAt`). A lexeme that begins with another
character begins with nothing put back behind it, so there is room for what it puts back
itself. `Reader.Reads.next` follows: the next item is the next one of the source, none of the
faults arises, and the reader stands in front of what the lexer has in front of it then.
-/

set_option autoImplicit false

namespace ScriptEngine

namespace Reader

/-- The characters with their places, where the first one stands at the given place. -/
def placedFrom (offset : Nat) : List Char → List PlacedChar
  | [] => []
  | character :: rest => ⟨character, offset⟩ :: placedFrom (offset + character.utf8Size) rest

/-- The reader that has put back the characters `back`, which stand in front of `ahead`. -/
def standing (nesting offset : Nat) (back ahead : List Char) : Reader :=
  ⟨ahead, offset + utf8Length back, placedFrom offset back, nesting⟩

/-- The reader stands in front of the characters, the first of them at the given place. It has
put back at most one of them, or a point and the one behind it. -/
def StandsAt (nesting offset : Nat) (characters : List Char) (reader : Reader) : Prop :=
  ∃ back ahead, characters = back ++ ahead ∧ reader = standing nesting offset back ahead ∧
    (back.length ≤ 1 ∨ ∃ next, back = ['.', next])

variable {nesting offset : Nat} {characters : List Char} {reader : Reader}

/-!
## Single characters
-/

theorem next?_back (nesting offset : Nat) (character : Char) (back ahead : List Char) :
    (standing nesting offset (character :: back) ahead).next? =
      some (⟨character, offset⟩, standing nesting (offset + character.utf8Size) back ahead) := by
  simp [standing, next?, placedFrom, utf8Length, Nat.add_assoc]

theorem next?_ahead (nesting offset : Nat) (character : Char) (ahead : List Char) :
    (standing nesting offset [] (character :: ahead)).next? =
      some (⟨character, offset⟩, standing nesting (offset + character.utf8Size) [] ahead) :=
  rfl

theorem next?_nothing (nesting offset : Nat) : (standing nesting offset [] []).next? = none :=
  rfl

/-- There is room for a character if nothing else is put back. -/
theorem putBack_ahead (nesting offset : Nat) (character : Char) (ahead : List Char) :
    (standing nesting (offset + character.utf8Size) [] ahead).putBack ⟨character, offset⟩ =
      .ok (standing nesting offset [character] ahead) :=
  rfl

/-- There is room for a second character, which stands in front of the other one. -/
theorem putBack_back (nesting offset : Nat) (character next : Char) (ahead : List Char) :
    (standing nesting (offset + character.utf8Size) [next] ahead).putBack ⟨character, offset⟩ =
      .ok (standing nesting offset [character, next] ahead) := by
  simp [standing, putBack, placedFrom, utf8Length, Nat.add_assoc]

namespace StandsAt

theorem ofSource (source : String) : StandsAt 0 0 source.toList (Reader.ofSource source) :=
  ⟨[], source.toList, rfl, rfl, .inl (Nat.zero_le 1)⟩

theorem nothing_back (nesting offset : Nat) (characters : List Char) :
    StandsAt nesting offset characters (standing nesting offset [] characters) :=
  ⟨[], characters, rfl, rfl, .inl (Nat.zero_le 1)⟩

theorem one_back (nesting offset : Nat) (character : Char) (ahead : List Char) :
    StandsAt nesting offset (character :: ahead) (standing nesting offset [character] ahead) :=
  ⟨[character], ahead, rfl, rfl, .inl (Nat.le_refl 1)⟩

theorem next?_nil (stands : StandsAt nesting offset [] reader) : reader.next? = none := by
  obtain ⟨back, ahead, split, rfl, _⟩ := stands
  obtain ⟨rfl, rfl⟩ := List.append_eq_nil_iff.mp split.symm
  rfl

theorem nesting_eq (stands : StandsAt nesting offset characters reader) :
    reader.nesting = nesting := by
  obtain ⟨back, ahead, _, rfl, _⟩ := stands
  rfl

theorem with_nesting (stands : StandsAt nesting offset characters reader) (other : Nat) :
    StandsAt other offset characters { reader with nesting := other } := by
  obtain ⟨back, ahead, split, rfl, room⟩ := stands
  exact ⟨back, ahead, split, rfl, room⟩

/-- The next character is taken. Unless it is a point, no other one is still put back. -/
theorem next?_cons {character : Char}
    (stands : StandsAt nesting offset (character :: characters) reader) :
    ∃ later, reader.next? = some (⟨character, offset⟩, later) ∧
      StandsAt nesting (offset + character.utf8Size) characters later ∧
      (character ≠ '.' →
        later = standing nesting (offset + character.utf8Size) [] characters) := by
  obtain ⟨back, ahead, split, rfl, room⟩ := stands
  cases back with
  | nil =>
      obtain rfl : character :: characters = ahead := split
      exact ⟨_, next?_ahead .., nothing_back .., fun _ => rfl⟩
  | cons first back =>
      obtain ⟨rfl, rfl⟩ := List.cons.inj split
      refine ⟨_, next?_back .., ⟨back, ahead, rfl, rfl, .inl ?_⟩, fun other => ?_⟩
      · rcases room with room | ⟨next, same⟩
        · exact Nat.le_trans (Nat.le_succ _) room
        · obtain rfl : back = [next] := (List.cons.inj same).2
          exact Nat.le_refl 1
      · rcases room with room | ⟨next, same⟩
        · obtain rfl : back = [] := List.length_eq_zero_iff.mp (by simpa using room)
          rfl
        · exact (other (List.cons.inj same).1).elim

end StandsAt

/-!
## Loops
-/

variable (nesting offset characters)

private theorem take_length_takeWhile (holds : Char → Bool) :
    characters.take (characters.takeWhile holds).length = characters.takeWhile holds :=
  (List.prefix_iff_eq_take.mp (List.takeWhile_prefix holds)).symm

private theorem drop_length_takeWhile (holds : Char → Bool) :
    characters.drop (characters.takeWhile holds).length = characters.dropWhile holds := by
  induction characters with
  | nil => rfl
  | cons character rest ih => by_cases held : holds character = true <;> simp [held, ih]

theorem takeIf_found (expected : Char) :
    (standing nesting offset [] (expected :: characters)).takeIf expected =
      .ok (true, standing nesting (offset + expected.utf8Size) [] characters) := by
  rw [takeIf, next?_ahead]
  exact if_pos rfl

theorem takeIf_missing {expected : Char} (missing : characters.head? ≠ some expected) :
    ∃ later, (standing nesting offset [] characters).takeIf expected = .ok (false, later) ∧
      StandsAt nesting offset characters later := by
  cases characters with
  | nil => exact ⟨_, rfl, .nothing_back ..⟩
  | cons character rest =>
      have other : character ≠ expected := fun same => missing (congrArg some same)
      refine ⟨_, ?_, .one_back nesting offset character rest⟩
      rw [takeIf, next?_ahead]
      dsimp only
      rw [if_neg other, putBack_ahead]
      rfl

theorem skipComment_standing :
    ∃ later, (standing nesting offset [] characters).skipComment = .ok later ∧
      StandsAt nesting (offset + utf8Length (characters.takeWhile (· ≠ '\n')))
        (characters.dropWhile (· ≠ '\n')) later := by
  induction characters generalizing offset with
  | nil =>
      refine ⟨_, ?_, .nothing_back ..⟩
      rw [skipComment, next?_nothing]
      rfl
  | cons character rest ih =>
      rw [skipComment, next?_ahead]
      dsimp only
      by_cases newline : character = '\n'
      · rw [if_pos newline, putBack_ahead]
        refine ⟨_, rfl, ?_⟩
        subst newline
        exact .one_back ..
      · obtain ⟨later, ran, stands⟩ := ih (offset + character.utf8Size)
        rw [if_neg newline, List.takeWhile_cons_of_pos (by simpa using newline),
          List.dropWhile_cons_of_pos (by simpa using newline), utf8Length, ← Nat.add_assoc]
        exact ⟨later, ran, stands⟩

theorem restOfWord_standing :
    ∃ later, (standing nesting offset [] characters).restOfWord offset =
        .ok ((characters.takeWhile Lexeme.isWordCharacter,
          offset + utf8Length (characters.takeWhile Lexeme.isWordCharacter)), later) ∧
      StandsAt nesting (offset + utf8Length (characters.takeWhile Lexeme.isWordCharacter))
        (characters.dropWhile Lexeme.isWordCharacter) later := by
  induction characters generalizing offset with
  | nil =>
      refine ⟨_, ?_, .nothing_back ..⟩
      rw [restOfWord, next?_nothing]
      rfl
  | cons character rest ih =>
      rw [restOfWord, next?_ahead]
      dsimp only
      by_cases inner : Lexeme.isWordCharacter character = true
      · obtain ⟨later, ran, stands⟩ := ih (offset + character.utf8Size)
        rw [if_pos inner, List.takeWhile_cons_of_pos inner, List.dropWhile_cons_of_pos inner,
          utf8Length, ← Nat.add_assoc]
        refine ⟨later, ?_, stands⟩
        rw [PlacedChar.stop, ran]
        rfl
      · rw [if_neg inner, List.takeWhile_cons_of_neg inner, List.dropWhile_cons_of_neg inner,
          putBack_ahead]
        exact ⟨_, rfl, .one_back ..⟩

/-- Behind a point only digits belong to a number. -/
theorem restOfNumber_fraction :
    ∃ later, (standing nesting offset [] characters).restOfNumber true offset =
        .ok ((characters.takeWhile Char.isDigit,
          offset + utf8Length (characters.takeWhile Char.isDigit)), later) ∧
      StandsAt nesting (offset + utf8Length (characters.takeWhile Char.isDigit))
        (characters.dropWhile Char.isDigit) later := by
  induction characters generalizing offset with
  | nil =>
      refine ⟨_, ?_, .nothing_back ..⟩
      rw [restOfNumber, next?_nothing]
      rfl
  | cons character rest ih =>
      rw [restOfNumber, next?_ahead]
      dsimp only
      by_cases digit : character.isDigit = true
      · obtain ⟨later, ran, stands⟩ := ih (offset + character.utf8Size)
        rw [if_pos digit, List.takeWhile_cons_of_pos digit, List.dropWhile_cons_of_pos digit,
          utf8Length, ← Nat.add_assoc]
        refine ⟨later, ?_, stands⟩
        rw [PlacedChar.stop, ran]
        rfl
      · have noPoint : ¬(decide (character = '.') && !true) = true := by simp
        rw [if_neg digit, if_neg noPoint, List.takeWhile_cons_of_neg digit,
          List.dropWhile_cons_of_neg digit, putBack_ahead]
        exact ⟨_, rfl, .one_back ..⟩

theorem restOfNumber_standing :
    ∃ later, (standing nesting offset [] characters).restOfNumber false offset =
        .ok ((characters.take (Lexeme.numberLength characters),
          offset + utf8Length (characters.take (Lexeme.numberLength characters))), later) ∧
      StandsAt nesting (offset + utf8Length (characters.take (Lexeme.numberLength characters)))
        (characters.drop (Lexeme.numberLength characters)) later := by
  induction characters generalizing offset with
  | nil =>
      refine ⟨_, ?_, .nothing_back ..⟩
      rw [restOfNumber, next?_nothing]
      rfl
  | cons character rest ih =>
      rw [restOfNumber, next?_ahead]
      dsimp only
      by_cases digit : character.isDigit = true
      · have length : Lexeme.numberLength (character :: rest) = Lexeme.numberLength rest + 1 := by
          rw [← List.singleton_append, Lexeme.numberLength_digits (by simpa using digit)]
          exact Nat.add_comm _ _
        obtain ⟨later, ran, stands⟩ := ih (offset + character.utf8Size)
        rw [if_pos digit, length, List.take_succ_cons, List.drop_succ_cons, utf8Length,
          ← Nat.add_assoc]
        refine ⟨later, ?_, stands⟩
        rw [PlacedChar.stop, ran]
        rfl
      · rw [if_neg digit]
        by_cases point : character = '.'
        · subst point
          have isPoint : (decide (('.' : Char) = '.') && !false) = true := rfl
          rw [if_pos isPoint]
          cases rest with
          | nil =>
              rw [next?_nothing]
              dsimp only
              rw [putBack_ahead]
              exact ⟨_, rfl, .one_back ..⟩
          | cons next more =>
              rw [next?_ahead, Lexeme.numberLength_point]
              dsimp only
              by_cases tenth : next.isDigit = true
              · obtain ⟨later, ran, stands⟩ := restOfNumber_fraction nesting
                  (offset + ('.' : Char).utf8Size + next.utf8Size) more
                rw [if_pos tenth, if_pos tenth, Nat.add_comm 2, List.take_succ_cons,
                  List.take_succ_cons, List.drop_succ_cons, List.drop_succ_cons,
                  take_length_takeWhile, drop_length_takeWhile, utf8Length, utf8Length,
                  ← Nat.add_assoc, ← Nat.add_assoc]
                refine ⟨later, ?_, stands⟩
                rw [PlacedChar.stop, ran]
                rfl
              · have second := putBack_back nesting offset '.' next more
                rw [if_neg tenth, if_neg tenth, putBack_ahead]
                refine ⟨_, ?_, ⟨['.', next], more, rfl, rfl, .inr ⟨next, rfl⟩⟩⟩
                change (do
                  let last ← (standing nesting (offset + ('.' : Char).utf8Size) [next] more).putBack
                    ⟨'.', offset⟩
                  return (([], offset), last)) = _
                rw [second]
                rfl
        · have noPoint : ¬(decide (character = '.') && !false) = true := by simpa using point
          have length : Lexeme.numberLength (character :: rest) = 0 := by
            refine Lexeme.numberLength_other ?_
            rintro next ⟨⟩
            exact ⟨by simpa using digit, point⟩
          rw [if_neg noPoint, length, putBack_ahead]
          exact ⟨_, rfl, .one_back ..⟩

theorem restOfText_nothing (quote : Char) (escaped : Bool) :
    (standing nesting offset [] []).restOfText quote escaped =
      (none, standing nesting offset [] []) := by
  rw [restOfText, next?_nothing]

theorem restOfText_pair (quote next : Char) :
    (standing nesting offset [] ('\\' :: next :: characters)).restOfText quote false =
      let (read, last) := (standing nesting (offset + ('\\' : Char).utf8Size + next.utf8Size) []
        characters).restOfText quote false
      (read.map fun (more, stop) => ('\\' :: next :: more, stop), last) := by
  rw [restOfText, next?_ahead]
  dsimp only
  rw [if_neg (by simp), restOfText, next?_ahead]
  simp [Function.comp_def]

theorem restOfText_plain {quote character : Char} (plain : character ≠ '\\') :
    (standing nesting offset [] (character :: characters)).restOfText quote false =
      let later := standing nesting (offset + character.utf8Size) [] characters
      if character = quote then (some ([character], offset + character.utf8Size), later)
      else
        let (read, last) := later.restOfText quote false
        (read.map fun (more, stop) => (character :: more, stop), last) := by
  rw [restOfText, next?_ahead]
  by_cases closes : character = quote
  · subst closes
    simp [plain, PlacedChar.stop]
  · simp [plain, closes]

/-- A text is read up to the quote that closes it, or else up to the end of the source. -/
theorem restOfText_standing (quote : Char) :
    (standing nesting offset [] characters).restOfText quote false =
      ((Lexeme.closing? quote characters).map fun count =>
          (characters.take count, offset + utf8Length (characters.take count)),
        let count := (Lexeme.closing? quote characters).getD characters.length
        standing nesting (offset + utf8Length (characters.take count)) []
          (characters.drop count)) := by
  induction characters using TextLiteral.pairs_induction generalizing offset with
  | nothing => exact restOfText_nothing ..
  | unpaired =>
      rw [restOfText, next?_ahead]
      simp [restOfText_nothing, Lexeme.closing?, utf8Length]
  | pair next rest ih =>
      rw [restOfText_pair, ih, Lexeme.closing?_pair]
      cases Lexeme.closing? quote rest with
      | none => simp [utf8Length, Nat.add_assoc]
      | some count => simp [utf8Length, Nat.add_assoc]
  | plain character rest ordinary ih =>
      rw [restOfText_plain _ _ _ ordinary, Lexeme.closing?_plain ordinary]
      by_cases closes : character = quote
      · simp [closes, utf8Length]
      · rw [if_neg closes, if_neg closes, ih]
        cases Lexeme.closing? quote rest with
        | none => simp [utf8Length, Nat.add_assoc]
        | some count => simp [utf8Length, Nat.add_assoc]

end Reader

/-!
## First characters
-/

namespace Lexeme

variable {character : Char}

theorem first_symbol {kind : TokenKind} (nested : Bool) (rest : List Char)
    (found : symbol? character = some kind) :
    first nested character rest = (.token kind, 0) ∧ character.utf8Size = 1 := by
  unfold symbol? at found
  split at found <;> cases found <;> exact ⟨rfl, rfl⟩

theorem first_operator {alone withEqual : TokenKind} (nested : Bool) (rest : List Char)
    (found : operator? character = some (alone, withEqual)) :
    first nested character rest = operator alone withEqual rest ∧ character.utf8Size = 1 ∧
      ∀ nesting, nestingAfter nesting alone = nesting ∧
        nestingAfter nesting withEqual = nesting := by
  unfold operator? at found
  split at found <;> cases found <;> exact ⟨rfl, rfl, fun _ => ⟨rfl, rfl⟩⟩

/-- Words open and close no brackets. -/
theorem nestingAfter_ofWord (nesting : Nat) (word : String) :
    nestingAfter nesting (.ofWord word) = nesting := by
  have listed := TokenKind.ofWord_mem word
  generalize TokenKind.ofWord word = kind at listed
  cases kind <;> first | rfl | exact absurd listed (by decide)

/-- Any other character is a quote, begins a number or a word, is a blank or is not recognised. -/
theorem first_other (nested : Bool) (rest : List Char) (noSymbol : symbol? character = none)
    (noOperator : operator? character = none) (noBang : character ≠ '!')
    (noNewline : character ≠ '\n') (noComment : character ≠ '#') :
    first nested character rest =
      if character = '"' || character = '\'' then
        match closing? character rest with
        | some count => (.token .text, count)
        | none => (.invalid .unclosedText, rest.length)
      else if character.isDigit then (.token .number, numberLength rest)
      else if isWordStart character then
        (.token (.ofWord (String.ofList (character :: rest.takeWhile isWordCharacter))),
          (rest.takeWhile isWordCharacter).length)
      else if isBlank character then (.blank, 0)
      else (.invalid (.unrecognized character), 0) := by
  unfold first
  split
  case h_22 => rfl
  case h_19 => exact (noBang rfl).elim
  case h_20 => exact (noNewline rfl).elim
  case h_21 => exact (noComment rfl).elim
  case h_14 | h_15 | h_16 | h_17 | h_18 => cases noOperator
  all_goals cases noSymbol

end Lexeme

/-!
## Items
-/

/-- The items behind the first one. The last one stays. -/
def LexicalItem.afterFirst : List LexicalItem → List LexicalItem
  | _ :: next :: rest => next :: rest
  | items => items

theorem LexicalItem.afterFirst_scanFrom (item : LexicalItem) (nesting offset skipped : Nat)
    (characters : List Char) :
    afterFirst (item :: scanFrom nesting offset skipped characters) =
      scanFrom nesting offset skipped characters := by
  have closed := closed_scanFrom nesting offset skipped characters
  generalize scanFrom nesting offset skipped characters = items at closed
  cases closed <;> rfl

theorem LexicalItem.nestingAfter_le (nesting : Nat) (item : LexicalItem) :
    item.nestingAfter nesting ≤ nesting + 1 := by
  unfold nestingAfter Lexeme.nestingAfter
  split
  · split <;> omega
  · exact Nat.le_succ nesting

namespace Reader

variable {source : String} {reader later : Reader} {items : List LexicalItem}

/-- The items are what is left of the source in front of the reader. No more brackets are open
than there are bytes behind it. -/
def Reads (source : String) (reader : Reader) (items : List LexicalItem) : Prop :=
  ∃ passed characters nesting, source.toList = passed ++ characters ∧
    nesting ≤ utf8Length passed ∧ StandsAt nesting (utf8Length passed) characters reader ∧
    items = LexicalItem.scanFrom nesting (utf8Length passed) 0 characters

theorem Reads.ofSource (source : String) :
    Reads source (Reader.ofSource source) (LexicalItem.scan source) :=
  ⟨[], source.toList, 0, rfl, Nat.zero_le _, .ofSource source, rfl⟩

/-- The answer is the first of the items, and the other ones are left. -/
def Answers (source : String) (answer : Except Fault (LexicalItem × Reader))
    (items : List LexicalItem) : Prop :=
  ∃ item later, answer = .ok (item, later) ∧ items.head? = some item ∧
    Reads source later (LexicalItem.afterFirst items)

section

variable {passed rest : List Char} {character : Char} {nesting count : Nat} {lexeme : Lexeme}

private theorem spelled_behind (spelled : source.toList = passed ++ character :: rest)
    (count : Nat) :
    source.toList = (passed ++ character :: rest.take count) ++ rest.drop count := by
  simp [spelled]

theorem answers_item {item : LexicalItem} (spelled : source.toList = passed ++ character :: rest)
    (bounded : nesting ≤ utf8Length passed)
    (found : Lexeme.first (0 < nesting) character rest = (lexeme, count))
    (made : LexicalItem.ofLexeme? (utf8Length passed) (character :: rest.take count) lexeme =
      some item)
    (stands : StandsAt (item.nestingAfter nesting)
      (utf8Length passed + utf8Length (character :: rest.take count)) (rest.drop count) later) :
    Answers source (.ok (item, later))
      (LexicalItem.scanFrom nesting (utf8Length passed) 0 (character :: rest)) := by
  have short := Lexeme.first_le (0 < nesting) character rest
  rw [found] at short
  have length : (rest.take count).length = count := List.length_take_of_le short
  have again : Lexeme.first (0 < nesting) character (rest.take count ++ rest.drop count) =
      (lexeme, (rest.take count).length) := by
    rw [List.take_append_drop, length, found]
  have scanned := LexicalItem.scanFrom_item again made
  have deeper := LexicalItem.nestingAfter_le nesting item
  have size := character.utf8Size_pos
  rw [List.take_append_drop] at scanned
  refine ⟨item, later, rfl, by rw [scanned]; rfl, passed ++ character :: rest.take count,
    rest.drop count, item.nestingAfter nesting, spelled_behind spelled count, ?_, ?_, ?_⟩
  · rw [utf8Length_append, utf8Length]
    omega
  · rwa [utf8Length_append]
  · rw [scanned, LexicalItem.afterFirst_scanFrom, utf8Length_append]

theorem reads_blank (spelled : source.toList = passed ++ character :: rest)
    (bounded : nesting ≤ utf8Length passed)
    (found : Lexeme.first (0 < nesting) character rest = (.blank, count))
    (stands : StandsAt nesting
      (utf8Length passed + utf8Length (character :: rest.take count)) (rest.drop count) later) :
    Reads source later
      (LexicalItem.scanFrom nesting (utf8Length passed) 0 (character :: rest)) := by
  refine ⟨passed ++ character :: rest.take count, rest.drop count, nesting,
    spelled_behind spelled count, ?_, ?_, ?_⟩
  · rw [utf8Length_append]
    omega
  · rwa [utf8Length_append]
  · rw [LexicalItem.scanFrom, found, utf8Length_append]
    exact LexicalItem.scanFrom_skipped ..

theorem nestingBehind_ok {positions : Bool}
    (short : positions = true → source.utf8ByteSize < 2 ^ 32)
    (spelled : source.toList = passed ++ character :: rest) (bounded : nesting ≤ utf8Length passed)
    (kind : TokenKind) :
    nestingBehind positions nesting kind = .ok (Lexeme.nestingAfter nesting kind) := by
  have deeper := LexicalItem.nestingAfter_le nesting (.ok ⟨kind, "", Span.between 0 0⟩)
  have size := character.utf8Size_pos
  have bytes : utf8Length source.toList = source.utf8ByteSize := by
    rw [← LexicalItem.utf8ByteSize_ofList, String.ofList_toList]
  rw [spelled, utf8Length_append, utf8Length] at bytes
  have fits : ¬(positions && decide (2 ^ 32 ≤ Lexeme.nestingAfter nesting kind)) = true := by
    rw [Bool.and_eq_true, decide_eq_true_eq]
    rintro ⟨checked, exceeds⟩
    have short := short checked
    change Lexeme.nestingAfter nesting kind ≤ nesting + 1 at deeper
    omega
  exact if_neg fits

theorem textOf_ok {positions : Bool} (short : positions = true → source.utf8ByteSize < 2 ^ 32)
    (spelled : source.toList = passed ++ character :: rest) (count : Nat) :
    textOf source positions
        (Span.between (utf8Length passed)
          (utf8Length passed + utf8Length (character :: rest.take count)))
        (String.ofList (character :: rest.take count)) =
      .ok (String.ofList (character :: rest.take count)) := by
  cases positions with
  | false => rfl
  | true =>
      have short := short rfl
      have split : source.toList =
          passed ++ ((character :: rest.take count) ++ rest.drop count) := by
        simp [spelled]
      have bytes : utf8Length source.toList = source.utf8ByteSize := by
        rw [← LexicalItem.utf8ByteSize_ofList, String.ofList_toList]
      rw [split, utf8Length_append, utf8Length_append] at bytes
      have placed := Span.between_toNat
        (Nat.le_add_right (utf8Length passed) (utf8Length (character :: rest.take count)))
        (by omega)
      have cut := Span.text?_of_spelled split short placed.1
        (placed.2.trans (Nat.add_sub_cancel_left _ _))
      rw [textOf, if_pos rfl, cut]

/-- A character that goes with an equals sign behind it, or else alone. -/
theorem answers_takeIf {alone withEqual : LexicalItem} {aloneLexeme equalLexeme : Lexeme}
    (spelled : source.toList = passed ++ character :: rest)
    (bounded : nesting ≤ utf8Length passed)
    (found : Lexeme.first (0 < nesting) character rest =
      if rest.head? = some '=' then (equalLexeme, 1) else (aloneLexeme, 0))
    (madeAlone : LexicalItem.ofLexeme? (utf8Length passed) [character] aloneLexeme = some alone)
    (madeEqual : LexicalItem.ofLexeme? (utf8Length passed) [character, '='] equalLexeme =
      some withEqual)
    (flatAlone : alone.nestingAfter nesting = nesting)
    (flatEqual : withEqual.nestingAfter nesting = nesting) :
    Answers source
      (do
        let (equal, last) ← (standing nesting (utf8Length passed + character.utf8Size) []
          rest).takeIf '='
        if equal then return (withEqual, last) else return (alone, last))
      (LexicalItem.scanFrom nesting (utf8Length passed) 0 (character :: rest)) := by
  by_cases equal : rest.head? = some '='
  · rw [if_pos equal] at found
    obtain ⟨more, rfl⟩ : ∃ more, rest = '=' :: more := by
      cases rest with
      | nil => cases equal
      | cons next more => exact ⟨more, by rw [Option.some.inj equal]⟩
    rw [takeIf_found]
    refine answers_item spelled bounded found madeEqual ?_
    rw [flatEqual]
    have stands := StandsAt.nothing_back nesting
      (utf8Length passed + character.utf8Size + ('=' : Char).utf8Size) more
    simpa [utf8Length, Nat.add_assoc] using stands
  · rw [if_neg equal] at found
    obtain ⟨last, ran, stands⟩ := takeIf_missing nesting
      (utf8Length passed + character.utf8Size) rest equal
    rw [ran]
    refine answers_item spelled bounded found madeAlone ?_
    rw [flatAlone]
    exact stands

theorem answers_symbol {positions : Bool} {kind : TokenKind}
    (short : positions = true → source.utf8ByteSize < 2 ^ 32)
    (spelled : source.toList = passed ++ character :: rest) (bounded : nesting ≤ utf8Length passed)
    (symbol : Lexeme.symbol? character = some kind)
    (stands : StandsAt nesting (utf8Length passed + character.utf8Size) rest later) :
    Answers source
      (do
        let nesting ← nestingBehind positions later.nesting kind
        return (.ok ⟨kind, String.ofList [character],
          Span.between (utf8Length passed) (utf8Length passed + 1)⟩, { later with nesting }))
      (LexicalItem.scanFrom nesting (utf8Length passed) 0 (character :: rest)) := by
  obtain ⟨found, size⟩ := Lexeme.first_symbol (0 < nesting) rest symbol
  rw [stands.nesting_eq, nestingBehind_ok short spelled bounded]
  refine answers_item spelled bounded found ?_ (stands.with_nesting _)
  simp [LexicalItem.ofLexeme?, utf8Length, size]

theorem answers_text (spelled : source.toList = passed ++ character :: rest)
    (bounded : nesting ≤ utf8Length passed)
    (found : Lexeme.first (0 < nesting) character rest =
      match Lexeme.closing? character rest with
      | some count => (.token .text, count)
      | none => (.invalid .unclosedText, rest.length)) :
    Answers source
      (match (standing nesting (utf8Length passed + character.utf8Size) [] rest).restOfText
          character false with
        | (some (more, stop), last) =>
            .ok (.ok ⟨.text, String.ofList (character :: more),
              Span.between (utf8Length passed) stop⟩, last)
        | (none, last) =>
            .ok (.error ⟨.unclosedText,
              Span.between (utf8Length passed) source.utf8ByteSize⟩, last))
      (LexicalItem.scanFrom nesting (utf8Length passed) 0 (character :: rest)) := by
  rw [restOfText_standing]
  cases closed : Lexeme.closing? character rest with
  | some count =>
      rw [closed] at found
      refine answers_item spelled bounded found ?_ ?_
      · simp [LexicalItem.ofLexeme?, utf8Length, Nat.add_assoc]
      · rw [utf8Length, ← Nat.add_assoc]
        exact .nothing_back ..
  | none =>
      have bytes : utf8Length source.toList = source.utf8ByteSize := by
        rw [← LexicalItem.utf8ByteSize_ofList, String.ofList_toList]
      rw [closed] at found
      refine answers_item spelled bounded found ?_ ?_
      · simp [LexicalItem.ofLexeme?, ← bytes, spelled, utf8Length_append]
      · rw [utf8Length, ← Nat.add_assoc]
        exact .nothing_back ..

theorem answers_number (spelled : source.toList = passed ++ character :: rest)
    (bounded : nesting ≤ utf8Length passed)
    (found : Lexeme.first (0 < nesting) character rest =
      (.token .number, Lexeme.numberLength rest)) :
    Answers source
      (do
        let ((more, stop), last) ← (standing nesting (utf8Length passed + character.utf8Size) []
          rest).restOfNumber false (utf8Length passed + character.utf8Size)
        return (.ok ⟨.number, String.ofList (character :: more),
          Span.between (utf8Length passed) stop⟩, last))
      (LexicalItem.scanFrom nesting (utf8Length passed) 0 (character :: rest)) := by
  obtain ⟨last, ran, stands⟩ := restOfNumber_standing nesting
    (utf8Length passed + character.utf8Size) rest
  rw [ran]
  refine answers_item spelled bounded found ?_ ?_
  · simp [LexicalItem.ofLexeme?, utf8Length, Nat.add_assoc]
  · rw [utf8Length, ← Nat.add_assoc]
    exact stands

theorem answers_word {positions : Bool} (short : positions = true → source.utf8ByteSize < 2 ^ 32)
    (spelled : source.toList = passed ++ character :: rest) (bounded : nesting ≤ utf8Length passed)
    (found : Lexeme.first (0 < nesting) character rest =
      (.token (.ofWord (String.ofList (character :: rest.takeWhile Lexeme.isWordCharacter))),
        (rest.takeWhile Lexeme.isWordCharacter).length)) :
    Answers source
      (do
        let ((more, stop), last) ← (standing nesting (utf8Length passed + character.utf8Size) []
          rest).restOfWord (utf8Length passed + character.utf8Size)
        let span := Span.between (utf8Length passed) stop
        let word ← textOf source positions span (String.ofList (character :: more))
        return (.ok ⟨.ofWord word, word, span⟩, last))
      (LexicalItem.scanFrom nesting (utf8Length passed) 0 (character :: rest)) := by
  obtain ⟨last, ran, stands⟩ := restOfWord_standing nesting
    (utf8Length passed + character.utf8Size) rest
  have text := textOf_ok short spelled (rest.takeWhile Lexeme.isWordCharacter).length
  have taken := take_length_takeWhile rest Lexeme.isWordCharacter
  have flat := Lexeme.nestingAfter_ofWord nesting
    (String.ofList (character :: rest.takeWhile Lexeme.isWordCharacter))
  rw [taken, utf8Length, ← Nat.add_assoc] at text
  rw [ran]
  change Answers source (textOf source positions _ _ >>= _) _
  rw [text]
  refine answers_item spelled bounded found ?_ ?_
  · simp [LexicalItem.ofLexeme?, taken, utf8Length, Nat.add_assoc]
  · rw [taken, drop_length_takeWhile, utf8Length, ← Nat.add_assoc]
    change StandsAt (Lexeme.nestingAfter nesting _) _ _ _
    rw [flat]
    exact stands

/-- From its first character on a lexeme is read as the lexer finds it. What is no item is passed
over, and reading goes on behind it. -/
theorem answers_character {positions : Bool}
    (short : positions = true → source.utf8ByteSize < 2 ^ 32)
    (spelled : source.toList = passed ++ character :: rest) (bounded : nesting ≤ utf8Length passed)
    (stands : StandsAt nesting (utf8Length passed) (character :: rest) reader)
    (again : ∀ {next : Reader}, next.left < reader.left →
      Reads source next (LexicalItem.scanFrom nesting (utf8Length passed) 0 (character :: rest)) →
      Answers source (next.nextItem source positions)
        (LexicalItem.scanFrom nesting (utf8Length passed) 0 (character :: rest))) :
    Answers source (reader.nextItem source positions)
      (LexicalItem.scanFrom nesting (utf8Length passed) 0 (character :: rest)) := by
  obtain ⟨later, taken, standsLater, calm⟩ := stands.next?_cons
  have fewer := left_of_next? taken
  rw [nextItem]
  split
  · next missing =>
      rw [taken] at missing
      cases missing
  · next same =>
      rw [taken] at same
      cases same
      dsimp only
      cases symbol : Lexeme.symbol? character with
      | some kind => exact answers_symbol short spelled bounded symbol standsLater
      | none =>
      have noPoint : character ≠ '.' := by
        rintro rfl
        cases symbol
      obtain rfl := calm noPoint
      cases operator : Lexeme.operator? character with
      | some kinds =>
          obtain ⟨alone, withEqual⟩ := kinds
          obtain ⟨found, size, flat⟩ := Lexeme.first_operator (0 < nesting) rest operator
          refine answers_takeIf spelled bounded found ?_ ?_ (flat nesting).1 (flat nesting).2
          · simp [LexicalItem.ofLexeme?, utf8Length, size]
          · have equal : ('=' : Char).utf8Size = 1 := rfl
            simp [LexicalItem.ofLexeme?, utf8Length, size, equal]
      | none =>
      dsimp only
      split
      · next bang =>
          subst bang
          exact answers_takeIf spelled bounded rfl rfl rfl rfl rfl
      · next noBang =>
      split
      · next newline =>
          subst newline
          split
          · next inside =>
              have found : Lexeme.first (0 < nesting) '\n' rest = (.blank, 0) :=
                if_pos (decide_eq_true inside)
              exact again fewer (reads_blank spelled bounded found
                (.nothing_back ..))
          · next outside =>
              have found : Lexeme.first (0 < nesting) '\n' rest = (.token .newline, 0) :=
                if_neg fun inside => outside (of_decide_eq_true inside)
              exact answers_item spelled bounded found rfl (.nothing_back ..)
      · next noNewline =>
      split
      · next comment =>
          subst comment
          obtain ⟨last, ran, stands⟩ := skipComment_standing nesting
            (utf8Length passed + ('#' : Char).utf8Size) rest
          split
          · next failed =>
              rw [ran] at failed
              cases failed
          · next skipped =>
              obtain rfl := Except.ok.inj (skipped.symm.trans ran)
              refine again ((left_of_skipComment ran).trans_lt fewer)
                (reads_blank spelled bounded rfl ?_)
              rw [take_length_takeWhile, drop_length_takeWhile, utf8Length, ← Nat.add_assoc]
              exact stands
      · next noComment =>
      have found := Lexeme.first_other (0 < nesting) rest symbol operator
        noBang noNewline noComment
      split
      · next quoted =>
          rw [if_pos quoted] at found
          exact answers_text spelled bounded found
      · next noQuote =>
      rw [if_neg noQuote] at found
      split
      · next digit =>
          rw [if_pos digit] at found
          exact answers_number spelled bounded found
      · next noDigit =>
      rw [if_neg noDigit] at found
      split
      · next word =>
          rw [if_pos word] at found
          exact answers_word short spelled bounded found
      · next noWord =>
      rw [if_neg noWord] at found
      split
      · next blank =>
          rw [if_pos blank] at found
          exact again fewer (reads_blank spelled bounded found (.nothing_back ..))
      · next noBlank =>
          rw [if_neg noBlank] at found
          exact answers_item spelled bounded found rfl (.nothing_back ..)

end

/-- Whatever the reader stands in front of, the next item is read without a fault. -/
theorem Reads.next {positions : Bool} (short : positions = true → source.utf8ByteSize < 2 ^ 32)
    (reads : Reads source reader items) :
    Answers source (reader.nextItem source positions) items := by
  induction size : reader.left using Nat.strongRecOn generalizing reader items with
  | ind _ ih =>
    obtain ⟨passed, characters, nesting, spelled, bounded, stands, rfl⟩ := reads
    cases characters with
    | nil =>
        have bytes : utf8Length passed = source.utf8ByteSize := by
          rw [← LexicalItem.utf8ByteSize_ofList, ← List.append_nil passed, ← spelled,
            String.ofList_toList]
        rw [nextItem]
        split
        · refine ⟨_, reader, rfl, ?_, passed, [], nesting, spelled, bounded, stands, rfl⟩
          rw [bytes]
          rfl
        · next taken =>
            rw [stands.next?_nil] at taken
            cases taken
    | cons character rest =>
        exact answers_character short spelled bounded stands fun smaller reads =>
          ih _ (smaller.trans_eq size) reads rfl

end Reader

end ScriptEngine
