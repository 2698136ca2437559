import Mathlib
import ScriptEngine.Proofs.Token.Passing

/-!
# Tokens tile the source

The source is a row of gaps and lexemes in turn: every token, and every stretch that is
no token, has one lexeme of its own, and a gap before it holds nothing but blanks and
comments. What is a blank depends on the brackets that are open: a newline separates
statements outside of all brackets, and is a token there. `Tiled` says how a row of
items covers a row of characters, `scanFrom_tiled` that the items found by the lexer do,
and `scan_tiles` what this means for their spans.
-/

set_option autoImplicit false

namespace ScriptEngine

theorem Span.between_toNat {start stop : Nat} (ordered : start ≤ stop) (short : stop < 2 ^ 32) :
    (Span.between start stop).start.toNat = start ∧
      (Span.between start stop).length.toNat = stop - start :=
  ⟨UInt32.toNat_ofNat_of_lt' (Nat.lt_of_le_of_lt ordered short),
    UInt32.toNat_ofNat_of_lt' (Nat.lt_of_le_of_lt (Nat.sub_le _ _) short)⟩

namespace LexicalItem

/-- The item is the token that the lexeme makes, or it is no token at all. -/
def IsOf (lexeme : List Char) : LexicalItem → Prop
  | .ok token => token.kind ≠ .endOfSource ∧ token.lexeme = String.ofList lexeme
  | .error _ => True

/-- The items cover the characters, the first of which stands at `offset` inside of
`nesting` brackets. -/
inductive Tiled : Nat → Nat → List Char → List LexicalItem → Prop where
  | ends {nesting offset : Nat} {gap : List Char} (skipped : Gap (0 < nesting) [] gap) :
      Tiled nesting offset gap
        [.ok ⟨.endOfSource, "",
          Span.between (offset + utf8Length gap) (offset + utf8Length gap)⟩]
  | item {nesting offset : Nat} {gap lexeme rest : List Char} {item : LexicalItem}
      {items : List LexicalItem} (skipped : Gap (0 < nesting) (lexeme ++ rest) gap)
      (taken : lexeme ≠ []) (named : item.IsOf lexeme)
      (placed : item.span = Span.between (offset + utf8Length gap)
        (offset + utf8Length gap + utf8Length lexeme))
      (more : Tiled (item.nestingAfter nesting)
        (offset + utf8Length gap + utf8Length lexeme) rest items) :
      Tiled nesting offset (gap ++ (lexeme ++ rest)) (item :: items)

/-!
## The lexer tiles
-/

/-- The items that a passage finds cover what it passes. -/
theorem Passes.tiled {back front : List Char} {nesting offset last : Nat}
    {items others : List LexicalItem} (passes : Passes back nesting offset front items last)
    (later : Tiled last (offset + utf8Length front) back others) :
    Tiled nesting offset (front ++ back) (items ++ others) := by
  induction passes with
  | nothing => exact later
  | @item nesting offset last gap more front character lexeme item items skipped found made _ ih =>
      have row : gap ++ (character :: (more ++ front)) ++ back =
          gap ++ ((character :: more) ++ (front ++ back)) := by simp
      have inner := Lexeme.first_ne_endOfSource (0 < nesting) character (more ++ (front ++ back))
      rw [row, List.cons_append]
      rw [found] at inner
      refine .item skipped (List.cons_ne_nil _ _) ?_ ?_
        (ih (by simpa [utf8Length, utf8Length_append, Nat.add_assoc] using later))
      · cases lexeme with
        | blank => cases made
        | token kind =>
            cases made
            exact ⟨fun ends => inner (congrArg Lexeme.token ends), rfl⟩
        | invalid cause =>
            cases made
            trivial
      · cases lexeme with
        | blank => cases made
        | token kind =>
            cases made
            rfl
        | invalid cause =>
            cases made
            rfl

/-- The items that the lexer finds cover the characters that are left. -/
theorem scanFrom_tiled (nesting offset : Nat) (characters : List Char) :
    Tiled nesting offset characters (scanFrom nesting offset 0 characters) := by
  obtain ⟨front, gap, items, last, rfl, passes, skipped⟩ := exists_passes nesting offset characters
  have ends := scanFrom_gap skipped (offset + utf8Length front)
  rw [List.append_nil] at ends
  rw [passes.scan, ends]
  exact passes.tiled (.ends skipped)

/-!
## Places in the source
-/

/-- Where the text stands that an item covers, among the items before and behind it: a gap
parts it from what the items before it cover. Only the last item covers nothing, and it
stands behind everything. -/
structure PlacedAt (source : String) (before : List LexicalItem) (item : LexicalItem)
    (behind : List LexicalItem) (front gap lexeme back : String) : Prop where
  split : source = front ++ gap ++ lexeme ++ back
  covered : front.utf8ByteSize =
    (before.getLast?.map fun last => last.span.start.toNat + last.span.length.toNat).getD 0
  start : item.span.start.toNat = (front ++ gap).utf8ByteSize
  length : item.span.length.toNat = lexeme.utf8ByteSize
  skipped : Gap (0 < before.foldl nestingAfter 0) (lexeme ++ back).toList gap.toList
  inner : behind ≠ [] → lexeme ≠ "" ∧ item.IsOf lexeme.toList
  last : behind = [] → lexeme = "" ∧ back = ""

/-- Every item has its place in the source, the items stand there in their order without
overlapping, and the end of the source is the last one. -/
structure Tiles (source : String) (items : List LexicalItem) : Prop where
  ends : ∃ token, items.getLast? = some (.ok token) ∧ token.kind = .endOfSource ∧
    token.span.start.toNat = source.utf8ByteSize ∧ token.span.length = 0
  placed : ∀ before item behind, items = before ++ item :: behind →
    ∃ front gap lexeme back, PlacedAt source before item behind front gap lexeme back
  ordered : items.Pairwise fun first second =>
    first.span.start < second.span.start ∧
      first.span.start.toNat + first.span.length.toNat ≤ second.span.start.toNat

theorem utf8ByteSize_ofList (characters : List Char) :
    (String.ofList characters).utf8ByteSize = utf8Length characters := by
  induction characters with
  | nil => rfl
  | cons character rest ih =>
      have apart : String.ofList (character :: rest) =
          String.singleton character ++ String.ofList rest := by
        simp
      rw [apart, String.utf8ByteSize_append, String.utf8ByteSize_singleton, ih, utf8Length]

private theorem utf8Length_pos {characters : List Char} (taken : characters ≠ []) :
    0 < utf8Length characters := by
  cases characters with
  | nil => exact (taken rfl).elim
  | cons character rest => exact Nat.add_pos_left character.utf8Size_pos _

/-- Items that cover the characters behind `passed` have places in the whole text. The end
of the last item before them is where the passed characters end. -/
theorem Tiled.placed {nesting offset : Nat} {characters : List Char} {items : List LexicalItem}
    (tiled : Tiled nesting offset characters items) :
    ∀ (passed : List Char) (done : List LexicalItem),
      offset = utf8Length passed → offset + utf8Length characters < 2 ^ 32 →
      nesting = done.foldl LexicalItem.nestingAfter 0 →
      offset = (done.getLast?.map fun last =>
        last.span.start.toNat + last.span.length.toNat).getD 0 →
      ∀ before item behind, items = before ++ item :: behind →
        ∃ front gap lexeme back, PlacedAt (String.ofList (passed ++ characters))
          (done ++ before) item behind front gap lexeme back := by
  induction tiled with
  | @ends nesting offset gap skipped =>
      intro passed done place short nested stop before item behind same
      obtain ⟨rfl, rfl, rfl⟩ : before = [] ∧ item = _ ∧ behind = [] := by
        cases before with
        | nil => simpa using same.symm
        | cons _ _ => simp at same
      have span := Span.between_toNat (Nat.le_refl (offset + utf8Length gap)) short
      refine ⟨String.ofList passed, String.ofList gap, "", "", ?_⟩
      rw [List.append_nil]
      exact {
        split := by simp
        covered := by rw [utf8ByteSize_ofList, ← place, stop]
        start := by
          rw [String.utf8ByteSize_append, utf8ByteSize_ofList, utf8ByteSize_ofList, ← place]
          exact span.1
        length := by
          rw [LexicalItem.span, span.2, Nat.sub_self]
          rfl
        skipped := by simpa [← nested] using skipped
        inner := fun more => (more rfl).elim
        last := fun _ => ⟨rfl, rfl⟩ }
  | @item nesting offset gap lexeme rest first items skipped taken named placed more ih =>
      intro passed done place short nested stop before item behind same
      simp only [utf8Length_append] at short
      have span := Span.between_toNat
        (Nat.le_add_right (offset + utf8Length gap) (utf8Length lexeme)) (by omega)
      rw [← placed] at span
      cases before with
      | nil =>
          obtain ⟨rfl, rfl⟩ : first = item ∧ items = behind := by simpa using same
          refine ⟨String.ofList passed, String.ofList gap, String.ofList lexeme,
            String.ofList rest, ?_⟩
          rw [List.append_nil]
          exact {
            split := by simp [String.append_assoc]
            covered := by rw [utf8ByteSize_ofList, ← place, stop]
            start := by
              rw [String.utf8ByteSize_append, utf8ByteSize_ofList, utf8ByteSize_ofList, ← place]
              exact span.1
            length := by rw [span.2, utf8ByteSize_ofList]; omega
            skipped := by simpa [← nested] using skipped
            inner := fun _ => ⟨by simpa [← String.toList_inj] using taken, by simpa using named⟩
            last := by rintro rfl; cases more }
      | cons head before =>
          obtain ⟨rfl, rfl⟩ : first = head ∧ items = before ++ item :: behind := by
            simpa using same
          have later := ih (passed ++ gap ++ lexeme) (done ++ [first])
            (by simp only [utf8Length_append]; omega) (by omega)
            (by rw [List.foldl_append, ← nested]; rfl)
            (by rw [List.getLast?_concat, Option.map_some, Option.getD_some]; omega)
            before item behind rfl
          simpa [List.append_assoc] using later

/-- The end of the source is the last item that covers characters. -/
theorem Tiled.last {nesting offset : Nat} {characters : List Char} {items : List LexicalItem}
    (tiled : Tiled nesting offset characters items) :
    ∃ token, items.getLast? = some (.ok token) ∧ token.kind = .endOfSource ∧
      token.span =
        Span.between (offset + utf8Length characters) (offset + utf8Length characters) := by
  induction tiled with
  | ends skipped => exact ⟨_, rfl, rfl, rfl⟩
  | item skipped taken named placed more ih =>
      obtain ⟨token, last, ends, span⟩ := ih
      refine ⟨token, by rw [List.getLast?_cons, last, Option.getD_some], ends, ?_⟩
      rw [span, utf8Length_append, utf8Length_append, Nat.add_assoc, Nat.add_assoc]

/-- Items that cover characters begin where these begin, and stand in order. -/
theorem Tiled.ordered {nesting offset : Nat} {characters : List Char} {items : List LexicalItem}
    (tiled : Tiled nesting offset characters items)
    (short : offset + utf8Length characters < 2 ^ 32) :
    (∀ item ∈ items, offset ≤ item.span.start.toNat) ∧
      items.Pairwise fun first second => first.span.start < second.span.start ∧
        first.span.start.toNat + first.span.length.toNat ≤ second.span.start.toNat := by
  induction tiled with
  | @ends nesting offset gap skipped =>
      have span := Span.between_toNat (Nat.le_refl (offset + utf8Length gap)) short
      refine ⟨fun item member => ?_, List.pairwise_singleton _ _⟩
      obtain rfl := List.mem_singleton.mp member
      exact Nat.le_trans (Nat.le_add_right _ _) (Nat.le_of_eq span.1.symm)
  | @item nesting offset gap lexeme rest first items skipped taken named placed more ih =>
      simp only [utf8Length_append] at short
      have span := Span.between_toNat
        (Nat.le_add_right (offset + utf8Length gap) (utf8Length lexeme)) (by omega)
      rw [← placed] at span
      have occupied := utf8Length_pos taken
      obtain ⟨later, ordered⟩ := ih (by omega)
      refine ⟨List.forall_mem_cons.mpr ⟨by omega, fun item member => ?_⟩,
        List.pairwise_cons.mpr ⟨fun item member => ?_, ordered⟩⟩
      · have := later item member
        omega
      · have := later item member
        rw [UInt32.lt_iff_toNat_lt]
        omega

/-- The items of a source tile it: the stretch from the end of one item to the start of the
next is blanks and comments, and nothing else is left out or read twice. -/
theorem scan_tiles {source : String} (short : source.utf8ByteSize < 2 ^ 32) :
    Tiles source (scan source) := by
  have tiled := scanFrom_tiled 0 0 source.toList
  have size : utf8Length source.toList = source.utf8ByteSize := by
    rw [← utf8ByteSize_ofList, String.ofList_toList]
  refine ⟨?_, fun before item behind same => ?_, (tiled.ordered (by omega)).2⟩
  · obtain ⟨token, last, ends, span⟩ := tiled.last
    have place := Span.between_toNat (Nat.le_refl (0 + utf8Length source.toList)) (by omega)
    exact ⟨token, last, ends, by rw [span, place.1]; omega,
      UInt32.toNat_inj.mp (by rw [span, place.2]; exact Nat.sub_self _)⟩
  · simpa using tiled.placed [] [] rfl (by omega) rfl rfl before item behind same

/-- Brackets make one line of the first two, and the text in the last line is not closed. -/
theorem scan_tiles_unclosed_text :
    Tiles "a[\n0]=1.5 # ü\n'x" (scan "a[\n0]=1.5 # ü\n'x") ∧
      (scan "a[\n0]=1.5 # ü\n'x").map (fun item => (item.span.start, item.span.length)) =
        [(0, 1), (1, 1), (3, 1), (4, 1), (5, 1), (6, 3), (14, 1), (15, 2), (17, 0)] :=
  ⟨scan_tiles (by decide), by decide +kernel⟩

end LexicalItem

end ScriptEngine
