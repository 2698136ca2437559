import Mathlib
import ScriptEngine.Proofs.Token.Tiling

/-!
# Unrecognised characters are harmless

A character that begins no lexeme is reported and passed over. Putting spaces in its place
changes no other item: what stands before it is recognised in front of a space as well, and
what stands behind it begins where it began (`LexicalItem.unrecognized_are_local`).

The spaces are put in along the way that the lexer takes. In a text whose positions do not
wrap this is where the reports say (`LexicalItem.blankedFrom_eq_blankAt`).
-/

set_option autoImplicit false

namespace ScriptEngine

/-!
## Lexemes
-/

namespace Lexeme

variable {nested : Bool} {character : Char} {rest : List Char} {count : Nat}

/-- What is no token is a single character, or a text up to the end of the source. -/
theorem first_invalid {cause : LexicalCause}
    (found : first nested character rest = (.invalid cause, count)) :
    cause = .unrecognized character ∧ count = 0 ∨ cause = .unclosedText ∧ count = rest.length := by
  have symbol (alone withEqual : TokenKind) :
      operator alone withEqual rest ≠ (.invalid cause, count) := by
    unfold operator
    split <;> simp
  unfold first at found
  split at found
  case h_19 =>
    split at found
    · cases found
    · cases found
      exact .inl ⟨rfl, rfl⟩
  case h_20 => split at found <;> cases found
  case h_22 =>
    split at found
    · split at found
      · cases found
      · cases found
        exact .inr ⟨rfl, rfl⟩
    · split at found
      · cases found
      · split at found
        · cases found
        · split at found
          · cases found
          · cases found
            exact .inl ⟨rfl, rfl⟩
  all_goals first | exact (symbol _ _ found).elim | cases found

end Lexeme

namespace LexicalItem

/-!
## Spaces
-/

/-- The item is a character that begins no lexeme. -/
def isUnrecognized : LexicalItem → Bool
  | .error ⟨.unrecognized _, _⟩ => true
  | _ => false

/-- As many spaces as the character has bytes. -/
def spacesFor (character : Char) : List Char :=
  List.replicate character.utf8Size ' '

/-- The characters with spaces for each one that begins no lexeme. The first `skipped` ones
belong to a lexeme that has been read. -/
def blankedFrom (nesting skipped : Nat) : List Char → List Char
  | [] => []
  | character :: rest =>
      match skipped with
      | skipped + 1 => character :: blankedFrom nesting skipped rest
      | 0 =>
          match Lexeme.first (0 < nesting) character rest with
          | (.token kind, count) =>
              character :: blankedFrom (Lexeme.nestingAfter nesting kind) count rest
          | (.invalid (.unrecognized _), count) =>
              spacesFor character ++ blankedFrom nesting count rest
          | (_, count) => character :: blankedFrom nesting count rest

/-- The source with spaces in place of each character that is reported as unrecognised. -/
def blanked (source : String) : String :=
  String.ofList (blankedFrom 0 0 source.toList)

/-- The places of the characters that are reported as unrecognised. -/
def unrecognizedPlaces (items : List LexicalItem) : List Nat :=
  (items.filter isUnrecognized).map fun item => item.span.start.toNat

/-- The characters, the first of which stands at `offset`, with spaces for each one that
stands at one of the places. -/
def blankAt (places : List Nat) (offset : Nat) : List Char → List Char
  | [] => []
  | character :: rest =>
      (if offset ∈ places then spacesFor character else [character]) ++
        blankAt places (offset + character.utf8Size) rest

theorem unrecognizedPlaces_cons (character : Char) (span : Span) (items : List LexicalItem) :
    unrecognizedPlaces (.error ⟨.unrecognized character, span⟩ :: items) =
      span.start.toNat :: unrecognizedPlaces items := rfl

theorem utf8Length_spacesFor (character : Char) :
    utf8Length (spacesFor character) = character.utf8Size := by
  have all (count : Nat) : utf8Length (List.replicate count ' ') = count := by
    have size : ' '.utf8Size = 1 := by decide
    induction count with
    | zero => rfl
    | succ count ih => rw [List.replicate_succ, utf8Length, ih, size, Nat.add_comm]
  exact all _

theorem gap_spacesFor (nested : Bool) (behind : List Char) (character : Char) :
    Gap nested behind (spacesFor character) := by
  have all (count : Nat) : Gap nested behind (List.replicate count ' ') := by
    induction count with
    | zero => exact .nothing
    | succ count ih => exact .blank rfl (fun newline => absurd newline (by decide)) ih
  exact all _

theorem apart_spacesFor (character : Char) (behind : List Char) :
    Lexeme.Apart (spacesFor character ++ behind) := by
  refine (gap_spacesFor false behind character).apart fun nothing => ?_
  have size := character.utf8Size_pos
  rw [spacesFor, List.replicate_eq_nil_iff] at nothing
  omega

theorem blankedFrom_skipped (nesting : Nat) (front rest : List Char) :
    blankedFrom nesting front.length (front ++ rest) = front ++ blankedFrom nesting 0 rest := by
  induction front with
  | nil => rfl
  | cons character front ih => rw [List.cons_append, List.length_cons, blankedFrom, ih,
      List.cons_append]

/-- Up to the first unrecognised character all stays, and there spaces begin. -/
theorem exists_kept (nesting skipped : Nat) (characters : List Char) :
    ∃ front back after, characters = front ++ back ∧
      blankedFrom nesting skipped characters = front ++ after ∧
        (after = back ∨ Lexeme.Apart after) := by
  induction characters generalizing nesting skipped with
  | nil => exact ⟨[], [], [], rfl, rfl, .inl rfl⟩
  | cons character rest ih =>
      have keep (nesting skipped : Nat) : ∃ front back after, character :: rest = front ++ back ∧
          character :: blankedFrom nesting skipped rest = front ++ after ∧
            (after = back ∨ Lexeme.Apart after) := by
        obtain ⟨front, back, after, split, blanked, same⟩ := ih nesting skipped
        exact ⟨character :: front, back, after, congrArg (character :: ·) split,
          congrArg (character :: ·) blanked, same⟩
      unfold blankedFrom
      split
      · exact keep _ _
      · split
        · exact keep _ _
        · exact ⟨[], _, _, rfl, rfl, .inr (apart_spacesFor _ _)⟩
        · exact keep _ _

/-- A newline is never replaced. -/
theorem head?_blankedFrom_newline {nesting : Nat} {characters : List Char}
    (newline : ∀ next ∈ characters.head?, next = '\n') :
    ∀ next ∈ (blankedFrom nesting 0 characters).head?, next = '\n' := by
  cases characters with
  | nil => simp [blankedFrom]
  | cons character rest =>
      obtain rfl : character = '\n' := newline character rfl
      cases nesting <;> simp [blankedFrom, Lexeme.first]

/-- What is recognised, or skipped, is so in front of spaces for unrecognised characters. -/
theorem first_blankedFrom {nested : Bool} {character : Char} {rest : List Char} {lexeme : Lexeme}
    {count : Nat} (found : Lexeme.first nested character rest = (lexeme, count))
    (recognised : lexeme ≠ .invalid (.unrecognized character)) (nesting : Nat) :
    Lexeme.first nested character (blankedFrom nesting count rest) = (lexeme, count) := by
  have short := Lexeme.first_le nested character rest
  rw [found] at short
  obtain ⟨more, back, rfl, rfl⟩ : ∃ more back, rest = more ++ back ∧ count = more.length :=
    ⟨rest.take count, rest.drop count, (List.take_append_drop _ _).symm,
      (List.length_take_of_le short).symm⟩
  rw [blankedFrom_skipped]
  obtain ⟨front, back, after, rfl, blanked, same⟩ := exists_kept nesting 0 back
  cases lexeme with
  | blank =>
      rcases Lexeme.first_blank found with ⟨nothing, blank, separates⟩ | ⟨rfl, line⟩
      · rw [nothing]
        exact Lexeme.first_of_isBlank blank separates _
      · have ends := (Lexeme.takeWhile_length_iff (front ++ back)).mp line.symm
        exact Lexeme.first_of_comment _ (by simpa using ends.1)
          (head?_blankedFrom_newline (by simpa using ends.2))
  | token kind =>
      rw [blanked]
      rcases same with rfl | apart
      · exact found
      · exact Lexeme.first_of_apart found (fun _ => rfl) apart
  | invalid cause =>
      rcases Lexeme.first_invalid found with ⟨rfl, _⟩ | ⟨rfl, all⟩
      · exact (recognised rfl).elim
      · have nothing : front ++ back = [] := by
          rw [List.length_append] at all
          exact List.eq_nil_of_length_eq_zero (by omega)
        rw [nothing] at found ⊢
        exact found

/-- The items are found again without the unrecognised characters. -/
theorem scanFrom_blankedFrom (nesting offset skipped : Nat) (characters : List Char) :
    scanFrom nesting offset skipped (blankedFrom nesting skipped characters) =
      (scanFrom nesting offset skipped characters).filter (fun item => !item.isUnrecognized) := by
  induction characters generalizing nesting offset skipped with
  | nil => rfl
  | cons character rest ih =>
      cases skipped with
      | succ skipped => exact ih nesting offset skipped
      | zero =>
          have short := Lexeme.first_le (0 < nesting) character rest
          have taken (nesting count : Nat) (le : count ≤ rest.length) :
              (blankedFrom nesting count rest).take count = rest.take count := by
            have split := blankedFrom_skipped nesting (rest.take count) (rest.drop count)
            rw [List.take_append_drop, List.length_take_of_le le] at split
            rw [split, List.take_left' (List.length_take_of_le le)]
          cases found : Lexeme.first (0 < nesting) character rest with
          | mk lexeme count =>
          rw [found] at short
          cases lexeme with
          | blank =>
              have again := first_blankedFrom found (by simp) nesting
              simp only [blankedFrom, scanFrom, found, again, taken _ _ short]
              exact ih _ _ _
          | token kind =>
              have again := first_blankedFrom found (by simp) (Lexeme.nestingAfter nesting kind)
              simp only [blankedFrom, scanFrom, found, again, taken _ _ short]
              rw [ih]
              rfl
          | invalid cause =>
              rcases Lexeme.first_invalid found with ⟨rfl, rfl⟩ | ⟨rfl, _⟩
              · have skipped := scanFrom_gap
                  (gap_spacesFor (0 < nesting) (blankedFrom nesting 0 rest) character) offset
                simp only [blankedFrom, scanFrom, found]
                rw [skipped, ih, utf8Length_spacesFor]
                rfl
              · have again := first_blankedFrom found (by simp) nesting
                simp only [blankedFrom, scanFrom, found, again, taken _ _ short]
                rw [ih]
                rfl

/-!
## Places
-/

/-- What the lexer has still to read begins behind the lexeme that it is in. -/
theorem le_of_mem_unrecognizedPlaces {nesting offset skipped : Nat} {characters : List Char}
    (short : offset + utf8Length (characters.drop skipped) < 2 ^ 32) {place : Nat}
    (member : place ∈ unrecognizedPlaces (scanFrom nesting offset skipped characters)) :
    offset ≤ place := by
  rw [scanFrom_skipped] at member
  obtain ⟨item, found, rfl⟩ := List.mem_map.mp member
  have tiled := scanFrom_tiled nesting offset (characters.drop skipped)
  exact (tiled.ordered short).1 item (List.mem_filter.mp found).1

/-- The spaces stand where unrecognised characters are reported. The places that are given
besides these are behind the lexer. -/
theorem blankedFrom_eq_blankAt (nesting offset skipped : Nat) (characters : List Char)
    (passed : List Nat) (behind : ∀ place ∈ passed, place < offset)
    (inside : skipped ≤ characters.length) (short : offset + utf8Length characters < 2 ^ 32) :
    blankedFrom nesting skipped characters =
      blankAt (passed ++ unrecognizedPlaces (scanFrom nesting
        (offset + utf8Length (characters.take skipped)) skipped characters)) offset characters := by
  induction characters generalizing nesting offset skipped passed with
  | nil => rfl
  | cons character rest ih =>
      have size := character.utf8Size_pos
      have total : utf8Length (character :: rest) = character.utf8Size + utf8Length rest := rfl
      rw [total] at short
      have bytes (skipped : Nat) :
          utf8Length (rest.take skipped) + utf8Length (rest.drop skipped) = utf8Length rest := by
        rw [← utf8Length_append, List.take_append_drop]
      have later : ∀ place ∈ passed, place < offset + character.utf8Size :=
        fun place member => Nat.lt_of_lt_of_le (behind place member) (Nat.le_add_right _ _)
      -- The character is no report of its own, so it is kept.
      have keep (nesting skipped : Nat) (inside : skipped ≤ rest.length) :
          character :: blankedFrom nesting skipped rest =
            blankAt (passed ++ unrecognizedPlaces (scanFrom nesting
              (offset + utf8Length (character :: rest.take skipped)) skipped rest)) offset
              (character :: rest) := by
        have next : offset + utf8Length (character :: rest.take skipped) =
            offset + character.utf8Size + utf8Length (rest.take skipped) := by
          rw [utf8Length, Nat.add_assoc]
        have kept : offset ∉ passed ++ unrecognizedPlaces (scanFrom nesting
            (offset + character.utf8Size + utf8Length (rest.take skipped)) skipped rest) := by
          intro member
          have bytes := bytes skipped
          rcases List.mem_append.mp member with member | member
          · exact absurd (behind offset member) (Nat.lt_irrefl _)
          · have := le_of_mem_unrecognizedPlaces (by omega) member
            omega
        rw [next, blankAt, if_neg kept, List.singleton_append,
          ih nesting (offset + character.utf8Size) skipped passed later inside (by omega)]
      cases skipped with
      | succ skipped => exact keep nesting skipped (Nat.le_of_succ_le_succ inside)
      | zero =>
          have close := Lexeme.first_le (0 < nesting) character rest
          cases found : Lexeme.first (0 < nesting) character rest with
          | mk lexeme count =>
          rw [found] at close
          have begins : offset + utf8Length ((character :: rest).take 0) = offset := rfl
          rw [begins]
          cases lexeme with
          | blank =>
              simp only [blankedFrom, scanFrom, found]
              exact keep nesting count close
          | token kind =>
              simp only [blankedFrom, scanFrom, found]
              exact keep (Lexeme.nestingAfter nesting kind) count close
          | invalid cause =>
              rcases Lexeme.first_invalid found with ⟨rfl, rfl⟩ | ⟨rfl, _⟩
              · have only : utf8Length (character :: rest.take 0) = character.utf8Size := rfl
                have place := (Span.between_toNat (Nat.le_add_right offset character.utf8Size)
                  (by omega)).1
                have reported : ∀ place ∈ passed ++ [offset], place < offset + character.utf8Size :=
                  fun place member => (List.mem_append.mp member).elim (later place)
                    fun here => by
                      rw [List.mem_singleton.mp here]
                      omega
                have following := ih nesting (offset + character.utf8Size) 0 (passed ++ [offset])
                  reported (Nat.zero_le _) (by omega)
                simp only [blankedFrom, scanFrom, found, only]
                rw [unrecognizedPlaces_cons, place, blankAt, if_pos (by simp), following,
                  List.append_assoc, List.singleton_append, List.take_zero, utf8Length,
                  Nat.add_zero]
              · simp only [blankedFrom, scanFrom, found]
                exact keep nesting count close

/-- With spaces in place of the unrecognised characters the lexer finds exactly the other
items, each at its place. So it finds all tokens, and nothing else is reported than a text
that was not closed before. -/
theorem unrecognized_are_local (source : String) :
    scan (blanked source) = (scan source).filter (fun item => !item.isUnrecognized) ∧
      (∀ failure, .error failure ∈ scan (blanked source) →
        failure.cause = .unclosedText ∧ .error failure ∈ scan source) ∧
      (source.utf8ByteSize < 2 ^ 32 →
        (blanked source).toList = blankAt (unrecognizedPlaces (scan source)) 0 source.toList) := by
  have found : scan (blanked source) =
      (scan source).filter (fun item => !item.isUnrecognized) := by
    rw [scan, blanked, String.toList_ofList]
    exact scanFrom_blankedFrom 0 0 0 source.toList
  refine ⟨found, fun failure member => ?_, fun short => ?_⟩
  · rw [found] at member
    obtain ⟨member, recognised⟩ := List.mem_filter.mp member
    obtain ⟨cause, span⟩ := failure
    cases cause with
    | unrecognized character => cases recognised
    | unclosedText => exact ⟨rfl, member⟩
  · have size : utf8Length source.toList = source.utf8ByteSize := by
      rw [← utf8ByteSize_ofList, String.ofList_toList]
    rw [blanked, String.toList_ofList]
    exact blankedFrom_eq_blankAt 0 0 0 source.toList [] (by simp) (Nat.zero_le _) (by omega)

/-- A lone exclamation mark in front of an equals sign that is none of its own, a character of
two bytes behind a number with a point, and a text that is not closed. -/
theorem unrecognized_are_local_behind_number :
    scan (blanked "!!=1.é\n'x") =
        (scan "!!=1.é\n'x").filter (fun item => !item.isUnrecognized) ∧
      .error ⟨.unclosedText, Span.between 8 10⟩ ∈ scan "!!=1.é\n'x" ∧
      (blanked "!!=1.é\n'x").toList = " !=1.  \n'x".toList := by
  obtain ⟨found, left, placed⟩ := unrecognized_are_local "!!=1.é\n'x"
  exact ⟨found, (left ⟨.unclosedText, Span.between 8 10⟩ (by decide +kernel)).2,
    (placed (by decide)).trans (by decide +kernel)⟩

end LexicalItem

end ScriptEngine
