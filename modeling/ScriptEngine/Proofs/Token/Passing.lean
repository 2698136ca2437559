import Mathlib
import ScriptEngine.Proofs.Token.Recognition

/-!
# What the lexer passes over

A gap is blanks and comments, which the lexer skips. `LexicalItem.Passes` says that the
lexer reads some items in a stretch of characters and stands in front of others then; the
lexemes are recognised with everything behind them present. Whatever the lexer does is such
a passage and a last gap (`LexicalItem.exists_passes`), and a passage that reads tokens only
can be moved to another place (`LexicalItem.Passes.transfer`).
-/

set_option autoImplicit false

namespace ScriptEngine

/-!
## Gaps
-/

/-- Blanks and comments before `behind`, inside of brackets or outside of them. A comment
goes on up to the next newline, which does not belong to it. -/
inductive Gap (nested : Bool) (behind : List Char) : List Char → Prop where
  | nothing : Gap nested behind []
  | blank {character : Char} {rest : List Char} (blank : isBlank character = true)
      (separates : character = '\n' → nested = true) (more : Gap nested behind rest) :
      Gap nested behind (character :: rest)
  | comment {body rest : List Char} (line : ∀ character ∈ body, character ≠ '\n')
      (ends : ∀ next ∈ (rest ++ behind).head?, next = '\n') (more : Gap nested behind rest) :
      Gap nested behind ('#' :: (body ++ rest))

theorem isWordCharacter_of_isBlank {character : Char} (blank : isBlank character = true) :
    Lexeme.isWordCharacter character = false := by
  by_contra word
  have bounds : 48 ≤ character.toNat ∧ character.toNat ≤ 122 := by
    simp only [Bool.not_eq_false, Lexeme.isWordCharacter, Char.isAlphanum, Char.isAlpha,
      Char.isUpper, Char.isLower, Char.isDigit, Bool.or_eq_true, Bool.and_eq_true,
      decide_eq_true_eq, UInt32.le_iff_toNat_le, ge_iff_le] at word
    change (((65 ≤ character.toNat ∧ character.toNat ≤ 90) ∨
      (97 ≤ character.toNat ∧ character.toNat ≤ 122)) ∨
      (48 ≤ character.toNat ∧ character.toNat ≤ 57)) ∨ character = '_' at word
    rcases word with word | rfl
    · omega
    · decide
  simp only [isBlank, Bool.or_eq_true, Bool.and_eq_true, decide_eq_true_eq, beq_iff_eq] at blank
  omega

namespace Gap

variable {nested : Bool} {behind : List Char} {gap : List Char}

theorem mono {other : Bool} (skipped : Gap nested behind gap)
    (deeper : nested = true → other = true) : Gap other behind gap := by
  induction skipped with
  | nothing => exact .nothing
  | blank isBlank separates _ ih =>
      exact .blank isBlank (fun newline => deeper (separates newline)) ih
  | comment line ends _ ih => exact .comment line ends ih

/-- Only the first character behind a gap matters to it. -/
theorem behind_of_head {other : List Char} (skipped : Gap nested behind gap)
    (same : behind.head? = other.head?) : Gap nested other gap := by
  induction skipped with
  | nothing => exact .nothing
  | blank isBlank separates _ ih => exact .blank isBlank separates ih
  | @comment body rest line ends _ ih =>
      refine .comment line (fun next head => ends next ?_) ih
      rw [List.head?_append] at head ⊢
      rwa [same]

/-- Nothing in a gap continues a lexeme in front of it. -/
theorem apart (skipped : Gap nested behind gap) (something : gap ≠ []) :
    Lexeme.Apart (gap ++ behind) := by
  cases skipped with
  | nothing => exact (something rfl).elim
  | blank isBlank _ _ =>
      rintro next ⟨⟩
      refine ⟨isWordCharacter_of_isBlank isBlank, ?_, ?_⟩ <;> rintro rfl <;> cases isBlank
  | comment _ _ _ =>
      rintro next ⟨⟩
      decide

/-- A gap from its first newline on. -/
theorem line (skipped : Gap nested behind gap) :
    Gap nested behind (gap.dropWhile (· ≠ '\n')) := by
  induction skipped with
  | nothing => exact .nothing
  | @blank character rest isBlank separates more ih =>
      rw [List.dropWhile_cons]
      split
      · exact ih
      · exact .blank isBlank separates more
  | @comment body rest line _ _ ih =>
      have all : ∀ character ∈ body, decide (character ≠ '\n') = true := by simpa using line
      rw [List.dropWhile_cons_of_pos (by decide), List.dropWhile_append_of_pos all]
      exact ih

/-- A comment in front of a gap takes the rest of the line, if a line ends behind the gap. -/
theorem comment_line {body : List Char} (line : ∀ character ∈ body, character ≠ '\n')
    (skipped : Gap nested behind gap) (ends : ∀ next ∈ behind.head?, next = '\n') :
    Gap nested behind ('#' :: (body ++ gap)) := by
  have parts := List.takeWhile_append_dropWhile (p := (· ≠ '\n')) (l := gap)
  rw [← parts, ← List.append_assoc]
  refine .comment (fun character member => ?_) (fun next head => ?_) skipped.line
  · rcases List.mem_append.mp member with member | member
    · exact line character member
    · simpa using List.all_eq_true.mp List.all_takeWhile character member
  · have stops := List.head?_dropWhile_not (· ≠ '\n') gap
    cases rest : gap.dropWhile (· ≠ '\n') with
    | nil =>
        rw [rest] at head
        exact ends next head
    | cons first others =>
        rw [rest] at head stops
        obtain rfl : first = next := by simpa using head
        simpa using stops

/-- Of two gaps in a row the second one may belong to a comment in the first. -/
theorem append {more : List Char} (skipped : Gap nested behind gap)
    (later : Gap nested behind more) : Gap nested behind (gap ++ more) := by
  induction skipped with
  | nothing => exact later
  | blank isBlank separates _ ih => exact .blank isBlank separates ih
  | @comment body rest line ends _ ih =>
      cases rest with
      | nil =>
          rw [List.append_nil]
          exact later.comment_line line ends
      | cons next rest =>
          rw [List.cons_append, List.append_assoc]
          exact .comment line ends ih

end Gap

/-!
## Lexemes
-/

namespace Lexeme

/-- What is skipped is a single blank, or a comment up to the end of its line. -/
theorem first_blank {nested : Bool} {character : Char} {rest : List Char} {count : Nat}
    (skipped : first nested character rest = (.blank, count)) :
    count = 0 ∧ isBlank character = true ∧ (character = '\n' → nested = true) ∨
      character = '#' ∧ count = (rest.takeWhile (· ≠ '\n')).length := by
  have symbol (alone withEqual : TokenKind) : operator alone withEqual rest ≠ (.blank, count) := by
    unfold operator
    split <;> simp
  unfold first at skipped
  split at skipped
  case h_20 =>
    split at skipped
    · next inside =>
        cases skipped
        exact .inl ⟨rfl, rfl, fun _ => inside⟩
    · cases skipped
  case h_21 =>
    cases skipped
    exact .inr ⟨rfl, rfl⟩
  case h_22 noNewline _ =>
    split at skipped
    · split at skipped <;> cases skipped
    · split at skipped
      · cases skipped
      · split at skipped
        · cases skipped
        · split at skipped
          · next blank =>
              cases skipped
              exact .inl ⟨rfl, blank, fun newline => (noNewline newline).elim⟩
          · cases skipped
  case h_19 => split at skipped <;> cases skipped
  all_goals first | exact (symbol _ _ skipped).elim | cases skipped

theorem first_of_isBlank {nested : Bool} {character : Char} (blank : isBlank character = true)
    (separates : character = '\n' → nested = true) (rest : List Char) :
    first nested character rest = (.blank, 0) := by
  have noWord := isWordCharacter_of_isBlank blank
  unfold first
  split
  case h_20 => rw [if_pos (separates rfl)]
  case h_22 =>
    have noDigit : ¬character.isDigit = true := fun digit =>
      absurd (isWordCharacter_of_isDigit digit) (by simp [noWord])
    have noStart : ¬isWordStart character = true := fun starts =>
      absurd (isWordCharacter_of_isWordStart starts) (by simp [noWord])
    have noQuote : ¬(character = '"' || character = '\'') = true := by
      intro quoted
      rcases (by simpa using quoted : character = '"' ∨ character = '\'') with rfl | rfl <;>
        cases blank
    rw [if_neg noQuote, if_neg noDigit, if_neg noStart, if_pos blank]
  all_goals cases blank

theorem first_of_comment {body rest : List Char} (nested : Bool)
    (line : ∀ character ∈ body, character ≠ '\n') (ends : ∀ next ∈ rest.head?, next = '\n') :
    first nested '#' (body ++ rest) = (.blank, body.length) := by
  have taken : ((body ++ rest).takeWhile (· ≠ '\n')).length = body.length :=
    (takeWhile_length_iff rest).mpr ⟨by simpa using line, by simpa using ends⟩
  exact Prod.ext rfl taken

/-- A lexeme ends at the end of the characters at the latest. -/
theorem first_le (nested : Bool) (character : Char) (rest : List Char) :
    (first nested character rest).2 ≤ rest.length := by
  have next (withEqual : rest.head? = some '=') : 1 ≤ rest.length :=
    List.length_pos_of_mem (List.mem_of_head? withEqual)
  have symbol (alone withEqual : TokenKind) :
      (operator alone withEqual rest).2 ≤ rest.length := by
    unfold operator
    split
    · next equal => exact next equal
    · exact Nat.zero_le _
  unfold first
  split
  case h_19 =>
    split
    · next equal => exact next equal
    · exact Nat.zero_le _
  case h_20 => split <;> exact Nat.zero_le _
  case h_21 => exact (List.takeWhile_prefix _).length_le
  case h_22 =>
    split
    · split
      · next quoted count closed => exact closing?_le closed
      · exact Nat.le_refl _
    · split
      · exact numberLength_le rest
      · split
        · exact (List.takeWhile_prefix _).length_le
        · split <;> exact Nat.zero_le _
  all_goals first | exact symbol _ _ | exact Nat.zero_le _

end Lexeme

namespace LexicalItem

/-!
## Steps of the lexer
-/

/-- The number of open brackets behind an item. -/
def nestingAfter (nesting : Nat) : LexicalItem → Nat
  | .ok token => Lexeme.nestingAfter nesting token.kind
  | .error _ => nesting

/-- The item that the characters at `start` make, which are a lexeme. -/
def ofLexeme? (start : Nat) (characters : List Char) : Lexeme → Option LexicalItem
  | .blank => none
  | .token kind =>
      some (.ok ⟨kind, String.ofList characters,
        Span.between start (start + utf8Length characters)⟩)
  | .invalid cause =>
      some (.error ⟨cause, Span.between start (start + utf8Length characters)⟩)

theorem scanFrom_gap {nesting : Nat} {behind gap : List Char}
    (skipped : Gap (0 < nesting) behind gap) (offset : Nat) :
    scanFrom nesting offset 0 (gap ++ behind) =
      scanFrom nesting (offset + utf8Length gap) 0 behind := by
  induction skipped generalizing offset with
  | nothing => rfl
  | @blank character rest blank separates _ ih =>
      rw [List.cons_append, scanFrom, Lexeme.first_of_isBlank blank separates]
      dsimp only
      rw [List.take_zero, ih]
      simp [utf8Length, Nat.add_assoc]
  | @comment body rest line ends _ ih =>
      rw [List.cons_append, List.append_assoc, scanFrom, Lexeme.first_of_comment _ line ends]
      dsimp only
      rw [List.take_left, scanFrom_skipped, List.drop_left, ih]
      simp [utf8Length, utf8Length_append, Nat.add_assoc]

theorem scanFrom_item {nesting offset : Nat} {character : Char} {more rest : List Char}
    {lexeme : Lexeme} {item : LexicalItem}
    (found : Lexeme.first (0 < nesting) character (more ++ rest) = (lexeme, more.length))
    (made : ofLexeme? offset (character :: more) lexeme = some item) :
    scanFrom nesting offset 0 (character :: (more ++ rest)) =
      item :: scanFrom (item.nestingAfter nesting)
        (offset + utf8Length (character :: more)) 0 rest := by
  rw [scanFrom, found]
  dsimp only
  rw [List.take_left]
  cases lexeme with
  | blank => cases made
  | token kind =>
      cases made
      dsimp only
      rw [scanFrom_skipped, List.drop_left]
      rfl
  | invalid cause =>
      cases made
      dsimp only
      rw [scanFrom_skipped, List.drop_left]
      rfl

/-!
## Passages
-/

/-- The lexer reads the items in the characters in front of `back`, from an offset on and
inside of so many brackets. The last number is how many are open in front of `back`. -/
inductive Passes (back : List Char) :
    Nat → Nat → List Char → List LexicalItem → Nat → Prop where
  | nothing {nesting offset : Nat} : Passes back nesting offset [] [] nesting
  | item {nesting offset last : Nat} {gap more front : List Char} {character : Char}
      {lexeme : Lexeme} {item : LexicalItem} {items : List LexicalItem}
      (skipped : Gap (0 < nesting) (character :: (more ++ (front ++ back))) gap)
      (found : Lexeme.first (0 < nesting) character (more ++ (front ++ back)) =
        (lexeme, more.length))
      (made : ofLexeme? (offset + utf8Length gap) (character :: more) lexeme = some item)
      (rest : Passes back (item.nestingAfter nesting)
        (offset + utf8Length gap + utf8Length (character :: more)) front items last) :
      Passes back nesting offset (gap ++ (character :: (more ++ front))) (item :: items) last

/-- Blanks and comments stand in front of whatever else there is. -/
theorem exists_gap (nested : Bool) (characters : List Char) :
    ∃ gap behind, characters = gap ++ behind ∧ Gap nested behind gap ∧
      ∀ character rest, behind = character :: rest →
        (Lexeme.first nested character rest).1 ≠ .blank := by
  induction size : characters.length using Nat.strongRecOn generalizing characters with
  | ind _ ih =>
    cases characters with
    | nil => exact ⟨[], [], rfl, .nothing, by simp⟩
    | cons character rest =>
        cases found : Lexeme.first nested character rest with
        | mk lexeme count =>
        by_cases blank : lexeme = .blank
        · subst blank
          obtain ⟨gap, behind, same, skipped, stops⟩ := ih (rest.drop count).length
            (by rw [← size, List.length_drop, List.length_cons]; omega) _ rfl
          rcases Lexeme.first_blank found with ⟨rfl, blank, separates⟩ | ⟨rfl, rfl⟩
          · rw [List.drop_zero] at same
            exact ⟨character :: gap, behind, by rw [same]; rfl,
              .blank blank separates skipped, stops⟩
          · have line := List.all_takeWhile (p := (· ≠ '\n')) (l := rest)
            have ends := List.head?_dropWhile_not (· ≠ '\n') rest
            have parts := List.takeWhile_append_dropWhile (p := (· ≠ '\n')) (l := rest)
            generalize rest.takeWhile (· ≠ '\n') = body at same line parts
            generalize rest.dropWhile (· ≠ '\n') = tail at ends parts
            subst parts
            rw [List.drop_left] at same
            subst same
            refine ⟨'#' :: (body ++ gap), behind, by simp, ?_, stops⟩
            refine .comment (by simpa using line) (fun next head => ?_) skipped
            rw [Option.mem_def.mp head] at ends
            simpa using ends
        · refine ⟨[], character :: rest, rfl, .nothing, ?_⟩
          rintro _ _ ⟨⟩
          rwa [found]

/-- Whatever the lexer finds, it finds in a passage that a last gap follows. -/
theorem exists_passes (nesting offset : Nat) (characters : List Char) :
    ∃ front gap items last, characters = front ++ gap ∧
      Passes gap nesting offset front items last ∧ Gap (0 < last) [] gap := by
  induction size : characters.length using Nat.strongRecOn
    generalizing nesting offset characters with
  | ind _ ih =>
    obtain ⟨gap, behind, rfl, skipped, stops⟩ := exists_gap (0 < nesting) characters
    cases behind with
    | nil => exact ⟨[], gap, [], nesting, by simp, .nothing, skipped⟩
    | cons character rest =>
        have solid := stops character rest rfl
        have short := Lexeme.first_le (0 < nesting) character rest
        cases found : Lexeme.first (0 < nesting) character rest with
        | mk lexeme count =>
        rw [found] at solid short
        obtain ⟨item, made⟩ : ∃ item, ofLexeme? (offset + utf8Length gap)
            (character :: rest.take count) lexeme = some item := by
          cases lexeme with
          | blank => exact (solid rfl).elim
          | token kind => exact ⟨_, rfl⟩
          | invalid cause => exact ⟨_, rfl⟩
        obtain ⟨front, tail, items, last, same, passes, ends⟩ := ih (rest.drop count).length
          (by rw [← size, List.length_append, List.length_drop, List.length_cons]; omega)
          (item.nestingAfter nesting)
          (offset + utf8Length gap + utf8Length (character :: rest.take count)) _ rfl
        have split : rest = rest.take count ++ (front ++ tail) := by
          rw [← same, List.take_append_drop]
        refine ⟨gap ++ (character :: (rest.take count ++ front)), tail, item :: items, last,
          ?_, .item ?_ ?_ made passes, ends⟩
        · rw [List.append_assoc, List.cons_append, List.append_assoc, ← split]
        · rwa [← split]
        · rw [← split, found, List.length_take, Nat.min_eq_left short]

namespace Passes

variable {back front more : List Char} {nesting offset last final : Nat}
  {items others : List LexicalItem}

theorem scan (passes : Passes back nesting offset front items last) :
    scanFrom nesting offset 0 (front ++ back) =
      items ++ scanFrom last (offset + utf8Length front) 0 back := by
  induction passes with
  | nothing => rfl
  | @item nesting offset last gap more front character lexeme item items skipped found made _ ih =>
      have row : gap ++ (character :: (more ++ front)) ++ back =
          gap ++ (character :: (more ++ (front ++ back))) := by simp
      rw [row, scanFrom_gap skipped, scanFrom_item found made, ih]
      simp [utf8Length, utf8Length_append, Nat.add_assoc]

theorem last_eq (passes : Passes back nesting offset front items last) :
    last = items.foldl nestingAfter nesting := by
  induction passes with
  | nothing => rfl
  | item _ _ _ _ ih => exact ih

theorem append (passes : Passes (more ++ back) nesting offset front items last)
    (later : Passes back last (offset + utf8Length front) more others final) :
    Passes back nesting offset (front ++ more) (items ++ others) final := by
  induction passes with
  | nothing => exact later
  | @item nesting offset last gap word front character lexeme item items skipped found made _ ih =>
      have passes := ih (by simpa [utf8Length, utf8Length_append, Nat.add_assoc] using later)
      rw [List.append_assoc, List.cons_append, List.append_assoc]
      exact .item (by simpa using skipped) (by simpa using found) made passes

/-- A symbol of one character that the lexer reads without a gap. -/
theorem symbol {character : Char} {kind : TokenKind}
    (found : Lexeme.first (0 < nesting) character (front ++ back) = (.token kind, 0))
    (rest : Passes back (Lexeme.nestingAfter nesting kind) (offset + utf8Length [character]) front
      items last) :
    Passes back nesting offset (character :: front)
      (.ok ⟨kind, String.ofList [character],
        Span.between offset (offset + utf8Length [character])⟩ :: items) last :=
  @Passes.item back nesting offset last [] [] front character _ _ items .nothing found rfl rest

/-- A passage can be interrupted between any two of its items. -/
theorem split (passes : Passes back nesting offset front (items ++ others) final) :
    ∃ before behind last, front = before ++ behind ∧
      Passes (behind ++ back) nesting offset before items last ∧
        Passes back last (offset + utf8Length before) behind others final := by
  induction items generalizing nesting offset front with
  | nil => exact ⟨[], front, nesting, rfl, .nothing, passes⟩
  | cons item items ih =>
      cases passes with
      | @item _ _ _ gap word front character lexeme _ _ skipped found made rest =>
          obtain ⟨before, behind, last, rfl, early, late⟩ := ih rest
          refine ⟨gap ++ (character :: (word ++ before)), behind, last, by simp,
            .item (by simpa using skipped) (by simpa using found) made early, ?_⟩
          simpa [utf8Length, utf8Length_append, Nat.add_assoc] using late

end Passes

/-- What the lexer finds in a source, it finds in a passage, a last gap and the end. -/
theorem exists_passes_scan (source : String) :
    ∃ front gap items last, source.toList = front ++ gap ∧ Passes gap 0 0 front items last ∧
      Gap (0 < last) [] gap ∧
      LexicalItem.scan source = items ++ [.ok ⟨.endOfSource, "",
        Span.between (utf8Length source.toList) (utf8Length source.toList)⟩] := by
  obtain ⟨front, gap, items, last, same, passes, skipped⟩ := exists_passes 0 0 source.toList
  have ends := scanFrom_gap skipped (utf8Length front)
  rw [List.append_nil] at ends
  refine ⟨front, gap, items, last, same, passes, skipped, ?_⟩
  rw [LexicalItem.scan, same, passes.scan, Nat.zero_add, ends, utf8Length_append, scanFrom]

theorem Passes.exists_found {back front : List Char} {nesting offset last : Nat}
    {items : List LexicalItem} (passes : Passes back nesting offset front items last)
    {token : Token} (member : .ok token ∈ items) :
    ∃ nested character more rest, token.lexeme = String.ofList (character :: more) ∧
      Lexeme.first nested character (more ++ rest) = (.token token.kind, more.length) := by
  induction passes with
  | nothing => cases member
  | @item nesting offset last gap more front character lexeme item items skipped found made _ ih =>
      rcases List.mem_cons.mp member with rfl | member
      · cases lexeme with
        | blank => cases made
        | invalid cause => cases made
        | token kind =>
            cases made
            exact ⟨_, _, _, _, rfl, found⟩
      · exact ih member

/-- The lexeme of a token is what the lexer recognises as one of its kind. -/
theorem exists_found {source : String} {token : Token} (member : .ok token ∈ scan source)
    (inner : token.kind ≠ .endOfSource) :
    ∃ nested character more rest, token.lexeme = String.ofList (character :: more) ∧
      Lexeme.first nested character (more ++ rest) = (.token token.kind, more.length) := by
  obtain ⟨front, gap, items, last, same, passes, skipped, scanned⟩ := exists_passes_scan source
  rw [scanned] at member
  rcases List.mem_append.mp member with member | last
  · exact passes.exists_found member
  · cases List.mem_singleton.mp last
    exact (inner rfl).elim

/-- The lexer has read the items in `front` and begins a lexeme in front of `back`. -/
def Ready (front back : List Char) (items : List LexicalItem) (nesting : Nat) : Prop :=
  ∃ passed gap, front = passed ++ gap ∧ Passes (gap ++ back) 0 0 passed items nesting ∧
    Gap (0 < nesting) back gap

theorem Ready.scan {front back : List Char} {items : List LexicalItem} {nesting : Nat}
    (ready : Ready front back items nesting) :
    LexicalItem.scan (String.ofList (front ++ back)) =
      items ++ scanFrom nesting (utf8Length front) 0 back := by
  obtain ⟨passed, gap, rfl, passes, skipped⟩ := ready
  rw [LexicalItem.scan, String.toList_ofList, List.append_assoc, passes.scan,
    scanFrom_gap skipped, utf8Length_append, Nat.zero_add]

/-!
## Other places
-/

end LexicalItem

/-- The place of what has none. -/
def Span.nowhere : Span :=
  Span.between 0 0

/-- The token without its place. -/
def Token.unplaced (token : Token) : Token :=
  { token with span := .nowhere }

/-- The failure without its place. -/
def LexicalError.unplaced (failure : LexicalError) : LexicalError :=
  { failure with span := .nowhere }

namespace LexicalItem

def unplaced : LexicalItem → LexicalItem
  | .ok token => .ok token.unplaced
  | .error failure => .error failure.unplaced

theorem map_unplaced_ok (tokens : List Token) :
    (tokens.map .ok : List LexicalItem).map unplaced = (tokens.map Token.unplaced).map .ok := by
  rw [List.map_map, List.map_map]
  rfl

/-- Items that are tokens but for their places are tokens. -/
theorem exists_tokens {items : List LexicalItem} {tokens : List Token}
    (same : items.map unplaced = (tokens.map .ok : List LexicalItem).map unplaced) :
    ∃ moved : List Token, items = moved.map .ok ∧
      moved.map Token.unplaced = tokens.map Token.unplaced := by
  induction items generalizing tokens with
  | nil => exact ⟨[], rfl, by simpa using same.symm⟩
  | cons item items ih =>
      cases tokens with
      | nil => cases same
      | cons token tokens =>
          obtain ⟨head, tail⟩ := List.cons.inj same
          obtain ⟨moved, rfl, rest⟩ := ih tail
          cases item with
          | error failure => cases head
          | ok first =>
              have begins : first.unplaced = token.unplaced := Except.ok.inj head
              exact ⟨first :: moved, rfl, by rw [List.map_cons, List.map_cons, begins, rest]⟩

theorem nestingAfter_unplaced (nesting : Nat) (item : LexicalItem) :
    item.unplaced.nestingAfter nesting = item.nestingAfter nesting := by
  cases item <;> rfl

theorem foldl_nestingAfter_unplaced (nesting : Nat) (items : List LexicalItem) :
    (items.map unplaced).foldl nestingAfter nesting = items.foldl nestingAfter nesting := by
  simp only [List.foldl_map, nestingAfter_unplaced]

/-- Where the characters stand makes no difference to what the items are. -/
theorem scanFrom_unplaced (nesting offset other skipped : Nat) (characters : List Char) :
    (scanFrom nesting offset skipped characters).map unplaced =
      (scanFrom nesting other skipped characters).map unplaced := by
  induction characters generalizing nesting offset other skipped with
  | nil => rfl
  | cons character rest ih =>
      cases skipped with
      | succ skipped => exact ih nesting offset other skipped
      | zero =>
          unfold scanFrom
          cases Lexeme.first (0 < nesting) character rest with
          | mk lexeme count =>
              cases lexeme with
              | blank => exact ih _ _ _ _
              | token kind => exact congrArg (_ :: ·) (ih _ _ _ _)
              | invalid cause => exact congrArg (_ :: ·) (ih _ _ _ _)

end LexicalItem

/-- Whether a line or the source ends with a token of this kind. -/
def TokenKind.endsLine (kind : TokenKind) : Bool :=
  kind == .newline || kind == .endOfSource

/-- The number of brackets that are open behind the tokens, if `nesting` are open before. -/
def Token.depthFrom (nesting : Nat) (tokens : List Token) : Nat :=
  tokens.foldl (fun nesting token => Lexeme.nestingAfter nesting token.kind) nesting

theorem Token.depthFrom_append (nesting : Nat) (front back : List Token) :
    Token.depthFrom nesting (front ++ back) =
      Token.depthFrom (Token.depthFrom nesting front) back :=
  List.foldl_append

namespace LexicalItem

/-- The tokens can stand inside of `other` brackets as well as inside of `nesting` ones: what
is inside of brackets stays so, and what is a newline stays outside of them. -/
def Sheltered : Nat → Nat → List Token → Prop
  | _, _, [] => True
  | nesting, other, token :: tokens =>
      (0 < nesting → 0 < other) ∧ (token.kind = .newline → 0 < other → 0 < nesting) ∧
        Sheltered (Lexeme.nestingAfter nesting token.kind)
          (Lexeme.nestingAfter other token.kind) tokens

theorem sheltered_refl (nesting : Nat) (tokens : List Token) :
    Sheltered nesting nesting tokens := by
  induction tokens generalizing nesting with
  | nil => trivial
  | cons token tokens ih => exact ⟨id, fun _ => id, ih _⟩

theorem sheltered_append {nesting other : Nat} {front back : List Token} :
    Sheltered nesting other (front ++ back) ↔ Sheltered nesting other front ∧
      Sheltered (Token.depthFrom nesting front) (Token.depthFrom other front) back := by
  induction front generalizing nesting other with
  | nil => simp [Sheltered, Token.depthFrom]
  | cons token front ih =>
      rw [List.cons_append, Sheltered, Sheltered, ih, and_assoc, and_assoc]
      rfl

/-- A passage through tokens is one in front of other characters too, from another place
on, if these begin with nothing that continues a lexeme. -/
theorem Passes.transfer {back after front : List Char} {nesting offset last : Nat}
    {tokens : List Token} (passes : Passes back nesting offset front (tokens.map .ok) last)
    (apart : Lexeme.Apart after) {other : Nat} (sheltered : Sheltered nesting other tokens)
    (start : Nat) :
    ∃ (moved : List Token) (final : Nat), Passes after other start front (moved.map .ok) final ∧
      moved.map Token.unplaced = tokens.map Token.unplaced := by
  induction tokens generalizing nesting offset front other start with
  | nil =>
      cases passes
      exact ⟨[], other, .nothing, rfl⟩
  | cons token tokens ih =>
      obtain ⟨deeper, newline, sheltered⟩ := sheltered
      rw [List.map_cons] at passes
      cases passes with
      | @item _ _ _ gap more front character lexeme _ _ skipped found made rest =>
          cases lexeme with
          | blank => cases made
          | invalid cause => cases made
          | token kind =>
              cases made
              obtain ⟨moved, final, passes, same⟩ := ih rest sheltered
                (start + utf8Length gap + utf8Length (character :: more))
              refine ⟨⟨kind, String.ofList (character :: more),
                Span.between (start + utf8Length gap)
                  (start + utf8Length gap + utf8Length (character :: more))⟩ :: moved, final,
                .item ((skipped.mono ?_).behind_of_head rfl)
                  (Lexeme.first_of_apart found ?_ apart) rfl passes, ?_⟩
              · simpa using deeper
              · rintro rfl
                have closed : ¬0 < nesting := by simpa using Lexeme.first_newline_outside found
                have stillClosed : ¬0 < other := fun inside =>
                  closed (newline ((Lexeme.first_newline_iff found).mpr rfl) inside)
                simp [closed, stillClosed]
              · simp [same, Token.unplaced]

end LexicalItem

end ScriptEngine
