import Mathlib
import ScriptEngine.Source.Lines

/-!
# Line numbers

The lines of a text stand in order and leave no gap, so the search in their table finds the
one that owns an offset, if one does. Which one it is the newlines in front of the offset say
(`LineTable.lineAt_ofText`), and these can be counted in the bytes of the text as well
(`LineTable.lineAt_counts_newlines`). The number of a line is a word, which holds it as long
as the text is shorter than 4 GiB.
-/

set_option autoImplicit false

namespace ScriptEngine

/-- The number of newlines that stand in front of the offset. -/
def newlinesBefore (offset : Nat) : List Char → Nat
  | [] => 0
  | character :: rest =>
      if offset = 0 then 0
      else (if character = '\n' then 1 else 0) + newlinesBefore (offset - character.utf8Size) rest

@[simp]
theorem newlinesBefore_zero (characters : List Char) : newlinesBefore 0 characters = 0 := by
  cases characters <;> simp [newlinesBefore]

theorem newlinesBefore_newline {offset : Nat} (rest : List Char) (behind : 0 < offset) :
    newlinesBefore offset ('\n' :: rest) = newlinesBefore (offset - 1) rest + 1 := by
  have size : '\n'.utf8Size = 1 := by decide
  rw [newlinesBefore, if_neg (Nat.ne_of_gt behind), if_pos rfl, size, Nat.add_comm]

theorem newlinesBefore_other {offset : Nat} {character : Char} {rest : List Char}
    (other : character ≠ '\n') :
    newlinesBefore offset (character :: rest) =
      newlinesBefore (offset - character.utf8Size) rest := by
  rw [newlinesBefore, if_neg other, Nat.zero_add]
  split
  · next start => rw [start, Nat.zero_sub, newlinesBefore_zero]
  · rfl

namespace LineTable

theorem side_eq_eq_iff {offset : Nat} {range : Nat × Nat} :
    side offset range = .eq ↔ range.1 ≤ offset ∧ offset < range.2 := by
  unfold side
  split
  · simp only [reduceCtorEq, false_iff]
    omega
  · split
    · simp only [reduceCtorEq, false_iff]
      omega
    · simp only [true_iff]
      omega

theorem stop_le_of_side {offset : Nat} {range : Nat × Nat} (front : side offset range = .lt) :
    range.2 ≤ offset := by
  unfold side at front
  split at front
  · cases front
  · split at front
    · assumption
    · cases front

theorem lt_start_of_side {offset : Nat} {range : Nat × Nat} (behind : side offset range = .gt) :
    offset < range.1 := by
  unfold side at behind
  split at behind
  · assumption
  · split at behind <;> cases behind

/-- No line ends before it begins, nor after the lines behind it begin. -/
structure Ordered (ranges : List (Nat × Nat)) : Prop where
  forward : ∀ range ∈ ranges, range.1 ≤ range.2
  apart : ranges.Pairwise fun earlier later => earlier.2 ≤ later.1

theorem Ordered.stop_le {ranges : List (Nat × Nat)} (ordered : Ordered ranges) {first second : Nat}
    {earlier later : Nat × Nat} (foundEarlier : ranges[first]? = some earlier)
    (foundLater : ranges[second]? = some later) (before : first < second) :
    earlier.2 ≤ later.1 := by
  obtain ⟨firstInside, rfl⟩ := List.getElem?_eq_some_iff.mp foundEarlier
  obtain ⟨secondInside, rfl⟩ := List.getElem?_eq_some_iff.mp foundLater
  exact List.pairwise_iff_getElem.mp ordered.apart first second firstInside secondInside before

theorem ordered_nil : Ordered [] :=
  ⟨by simp, List.Pairwise.nil⟩

theorem Ordered.cons {range : Nat × Nat} {ranges : List (Nat × Nat)} (ordered : Ordered ranges)
    (forward : range.1 ≤ range.2) (apart : ∀ later ∈ ranges, range.2 ≤ later.1) :
    Ordered (range :: ranges) :=
  ⟨List.forall_mem_cons.mpr ⟨forward, ordered.forward⟩,
    List.pairwise_cons.mpr ⟨apart, ordered.apart⟩⟩

theorem ordered_singleton {range : Nat × Nat} (forward : range.1 ≤ range.2) : Ordered [range] :=
  ordered_nil.cons forward (by simp)

/-- A search answers with a line that owns the offset. -/
theorem search_owns {table : LineTable} {offset low high index : Nat}
    (found : table.search offset low high = some index) :
    ∃ range, table.ranges[index]? = some range ∧ side offset range = .eq := by
  fun_induction search table offset low high with
  | case1 low high open_ middle missing => cases found
  | case2 low high open_ middle range present owns =>
      rw [← Option.some.inj found]
      exact ⟨range, present, owns⟩
  | case3 low high open_ middle range present front ih => exact ih found
  | case4 low high open_ middle range present behind ih => exact ih found
  | case5 => cases found

/-- The line that owns the offset is found, if it is among those that are searched: what a
look rules out are lines on the other side. -/
theorem search_of_owns {table : LineTable} (ordered : Ordered table.ranges) {offset index : Nat}
    {range : Nat × Nat} (present : table.ranges[index]? = some range)
    (owns : side offset range = .eq) {low high : Nat} (above : low ≤ index)
    (below : index < high) (inside : high ≤ table.ranges.length) :
    table.search offset low high = some index := by
  have owned := side_eq_eq_iff.mp owns
  fun_induction search table offset low high with
  | case1 low high open_ middle missing =>
      have := List.getElem?_eq_none_iff.mp missing
      omega
  | case2 low high open_ middle other found same =>
      have shared := side_eq_eq_iff.mp same
      rcases Nat.lt_trichotomy index middle with earlier | same | later
      · have := ordered.stop_le present found earlier
        omega
      · rw [same]
      · have := ordered.stop_le found present later
        omega
  | case3 low high open_ middle other found front ih =>
      have ended := stop_le_of_side front
      have forward := ordered.forward other (List.mem_of_getElem? found)
      refine ih ?_ below inside
      rcases Nat.lt_trichotomy index middle with earlier | same | later
      · have := ordered.stop_le present found earlier
        omega
      · rw [← same, present] at found
        cases found
        omega
      · exact later
  | case4 low high open_ middle other found behind ih =>
      have begins := lt_start_of_side behind
      have forward := ordered.forward other (List.mem_of_getElem? found)
      refine ih above ?_ (by omega)
      rcases Nat.lt_trichotomy index middle with earlier | same | later
      · exact earlier
      · rw [← same, present] at found
        cases found
        omega
      · have := ordered.stop_le found present later
        omega
  | case5 low high closed => omega

/-- The line of an offset is the place of its owner among the lines. -/
theorem lineAt_of_owns {before behind : List (Nat × Nat)} {range : Nat × Nat} {offset : Nat}
    (ordered : Ordered (before ++ range :: behind)) (begun : range.1 ≤ offset)
    (ahead : offset < range.2) :
    lineAt ⟨before ++ range :: behind⟩ offset = UInt32.ofNat (before.length + 1) := by
  have present : (before ++ range :: behind)[before.length]? = some range := by simp
  have found : search ⟨before ++ range :: behind⟩ offset 0 (before ++ range :: behind).length =
      some before.length :=
    search_of_owns ordered present (side_eq_eq_iff.mpr ⟨begun, ahead⟩) (Nat.zero_le _) (by simp)
      (Nat.le_refl _)
  rw [lineAt, found]

/-- An offset without an owner is counted to the line after the last one. -/
theorem lineAt_of_unowned {ranges : List (Nat × Nat)} {offset : Nat}
    (unowned : ∀ range ∈ ranges, range.2 ≤ offset) :
    lineAt ⟨ranges⟩ offset = UInt32.ofNat (ranges.length + 1) := by
  unfold lineAt
  split
  · next index found =>
      obtain ⟨range, present, owns⟩ := search_owns found
      have ended := unowned range (List.mem_of_getElem? present)
      have owned := side_eq_eq_iff.mp owns
      omega
  · rfl

/-!
## The lines of a text
-/

theorem le_start_of_mem_rangesFrom {characters : List Char} {lineStart position : Nat}
    (started : lineStart ≤ position) {range : Nat × Nat}
    (member : range ∈ rangesFrom lineStart position characters) : lineStart ≤ range.1 := by
  induction characters generalizing lineStart position with
  | nil =>
      unfold rangesFrom at member
      split at member
      · cases member
      · obtain rfl := List.mem_singleton.mp member
        exact Nat.le_refl _
  | cons character rest ih =>
      have size := character.utf8Size_pos
      unfold rangesFrom at member
      dsimp only at member
      split at member
      · rcases List.mem_cons.mp member with rfl | member
        · exact Nat.le_refl _
        · exact Nat.le_trans (by omega) (ih (Nat.le_refl _) member)
      · exact ih (by omega) member

theorem ordered_rangesFrom {characters : List Char} {lineStart position : Nat}
    (started : lineStart ≤ position) : Ordered (rangesFrom lineStart position characters) := by
  induction characters generalizing lineStart position with
  | nil =>
      unfold rangesFrom
      split
      · exact ordered_nil
      · exact ordered_singleton (by omega)
  | cons character rest ih =>
      unfold rangesFrom
      dsimp only
      split
      · exact (ih (Nat.le_refl _)).cons (by omega) fun later member =>
          le_start_of_mem_rangesFrom (Nat.le_refl _) member
      · exact ih (by omega)

/-- The rest of a text, from a position in the line that began at `lineStart`: an offset is
owned by the line that the newlines between the position and the offset say, or all of the
lines end in front of it, and there are as many as newlines. -/
theorem exists_owner {characters : List Char} {lineStart position offset : Nat}
    (started : lineStart ≤ position) (behind : lineStart ≤ offset)
    (inside : offset ≤ position + utf8Length characters) :
    (∃ before range after, rangesFrom lineStart position characters = before ++ range :: after ∧
      range.1 ≤ offset ∧ offset < range.2 ∧
      before.length = newlinesBefore (offset - position) characters) ∨
    ((∀ range ∈ rangesFrom lineStart position characters, range.2 ≤ offset) ∧
      (rangesFrom lineStart position characters).length =
        newlinesBefore (offset - position) characters) := by
  induction characters generalizing lineStart position with
  | nil =>
      have last : offset ≤ position := inside
      unfold rangesFrom
      split
      · exact .inr ⟨by simp, rfl⟩
      · exact .inl ⟨[], _, [], rfl, behind, Nat.lt_succ_of_le last, rfl⟩
  | cons character rest ih =>
      have total : utf8Length (character :: rest) = character.utf8Size + utf8Length rest := rfl
      rw [total] at inside
      by_cases newline : character = '\n'
      · subst newline
        have size : '\n'.utf8Size = 1 := by decide
        simp only [rangesFrom, ↓reduceIte, size] at inside ⊢
        by_cases reached : offset ≤ position
        · refine .inl ⟨[], _, _, rfl, behind, Nat.lt_succ_of_le reached, ?_⟩
          rw [Nat.sub_eq_zero_of_le reached, newlinesBefore_zero, List.length_nil]
        · have following : position + 1 ≤ offset := Nat.lt_of_not_le reached
          rw [newlinesBefore_newline rest (by omega), Nat.sub_sub]
          rcases ih (Nat.le_refl _) following (by omega) with
            ⟨before, range, after, split, begun, ahead, count⟩ | ⟨ended, count⟩
          · refine .inl ⟨(lineStart, position + 1) :: before, range, after, ?_, begun, ahead, ?_⟩
            · rw [split, List.cons_append]
            · rw [List.length_cons, count]
          · refine .inr ⟨List.forall_mem_cons.mpr ⟨following, ended⟩, ?_⟩
            rw [List.length_cons, count]
      · rw [rangesFrom, if_neg newline, newlinesBefore_other newline, Nat.sub_sub]
        exact ih (Nat.le_add_right_of_le started) behind (by omega)

/-- The line of an offset in a text is the number of newlines in front of it, and one. -/
theorem lineAt_ofText {text : String} {offset : Nat}
    (inside : offset ≤ utf8Length text.toList) :
    (ofText text).lineAt offset = UInt32.ofNat (newlinesBefore offset text.toList + 1) := by
  unfold ofText
  cases characters : text.toList with
  | nil =>
      rw [characters] at inside
      have atStart : offset < 1 := Nat.lt_succ_of_le inside
      exact @lineAt_of_owns [] [] _ _ (ordered_singleton (Nat.zero_le _)) (Nat.zero_le _) atStart
  | cons character rest =>
      rw [characters] at inside
      have ordered : Ordered (rangesFrom 0 0 (character :: rest)) :=
        ordered_rangesFrom (Nat.le_refl 0)
      rcases exists_owner (Nat.le_refl 0) (Nat.zero_le offset)
        (Nat.le_trans inside (Nat.le_add_left _ _)) with
          ⟨before, range, after, split, begun, ahead, count⟩ | ⟨ended, count⟩
      · rw [split] at ordered
        dsimp only
        rw [split, lineAt_of_owns ordered begun ahead, count, Nat.sub_zero]
      · dsimp only
        rw [lineAt_of_unowned ended, count, Nat.sub_zero]

end LineTable

/-!
## Bytes
-/

/-- Only the encoding of a newline has the byte of a newline in it. -/
theorem eq_newline_of_mem_utf8EncodeChar {character : Char}
    (member : '\n'.toUInt8 ∈ String.utf8EncodeChar character) : character = '\n' := by
  have code : ('\n'.toUInt8).toNat = 10 := rfl
  have small (byte : Nat) (same : '\n'.toUInt8 = UInt8.ofNat byte) : byte % 256 = 10 := by
    rw [← code, same, UInt8.toNat_ofNat']
  have single : character.val.toNat = 10 := by
    unfold String.utf8EncodeChar at member
    dsimp only at member
    split at member
    · have := small _ (List.mem_singleton.mp member)
      omega
    · split at member
      · simp only [List.mem_cons, List.not_mem_nil, or_false] at member
        rcases member with same | same <;> have := small _ same <;> omega
      · split at member
        · simp only [List.mem_cons, List.not_mem_nil, or_false] at member
          rcases member with same | same | same <;> have := small _ same <;> omega
        · simp only [List.mem_cons, List.not_mem_nil, or_false] at member
          rcases member with same | same | same | same <;> have := small _ same <;> omega
  exact Char.ext (UInt32.toNat_inj.mp single)

/-- A character stands in front of the offset with all of its bytes or with the first ones,
and only a newline, which has one byte, counts. -/
theorem count_take_utf8Encode (offset : Nat) (characters : List Char) :
    ((characters.flatMap String.utf8EncodeChar).take offset).count '\n'.toUInt8 =
      newlinesBefore offset characters := by
  induction characters generalizing offset with
  | nil => simp [newlinesBefore]
  | cons character rest ih =>
      rw [List.flatMap_cons, List.take_append, List.count_append, ih,
        String.length_utf8EncodeChar]
      by_cases newline : character = '\n'
      · subst newline
        have size : '\n'.utf8Size = 1 := by decide
        have encoded : String.utf8EncodeChar '\n' = ['\n'.toUInt8] := by decide
        cases offset with
        | zero => simp
        | succ offset =>
            rw [newlinesBefore_newline rest (Nat.succ_pos offset), encoded, size]
            simp [Nat.add_comm]
      · have nothing : ((String.utf8EncodeChar character).take offset).count '\n'.toUInt8 = 0 :=
          List.count_eq_zero.mpr fun member =>
            newline (eq_newline_of_mem_utf8EncodeChar (List.mem_of_mem_take member))
        rw [newlinesBefore_other newline, nothing, Nat.zero_add]

theorem utf8Length_eq_length (characters : List Char) :
    utf8Length characters = (characters.flatMap String.utf8EncodeChar).length := by
  induction characters with
  | nil => rfl
  | cons character rest ih =>
      rw [utf8Length, ih, List.flatMap_cons, List.length_append, String.length_utf8EncodeChar]

/-- The bytes of a text are those of its characters. -/
theorem bytes_eq (text : String) :
    text.toByteArray.data.toList = text.toList.flatMap String.utf8EncodeChar := by
  rw [← String.utf8Encode_toList, List.utf8Encode, List.data_toByteArray, List.toList_toArray]

namespace LineTable

/-- A word holds a line number exactly as long as that is below 2 to the power of 32. -/
theorem toNat_ofNat_eq_iff (number : Nat) :
    (UInt32.ofNat number).toNat = number ↔ number < 2 ^ 32 := by
  constructor
  · intro held
    rw [← held]
    exact (UInt32.ofNat number).toNat_lt
  · exact UInt32.toNat_ofNat_of_lt'

/-- The line of an offset, up to the end of the text, is the word for the number of newline
bytes in front of it, and one. It is this number exactly if the number fits in 32 bits, as it
does in every text that is shorter than 4 GiB by more than one byte. -/
theorem lineAt_counts_newlines (text : String) (offset : Nat)
    (inside : offset ≤ text.utf8ByteSize) :
    let line := 1 + (text.toByteArray.data.toList.take offset).count '\n'.toUInt8
    (ofText text).lineAt offset = UInt32.ofNat line ∧
      (((ofText text).lineAt offset).toNat = line ↔ line < 2 ^ 32) ∧
      (text.utf8ByteSize + 1 < 2 ^ 32 → ((ofText text).lineAt offset).toNat = line) := by
  have size : text.utf8ByteSize = utf8Length text.toList := by
    rw [utf8Length_eq_length, ← bytes_eq]
    rfl
  intro line
  have word : (ofText text).lineAt offset = UInt32.ofNat line := by
    rw [lineAt_ofText (size ▸ inside), ← count_take_utf8Encode, ← bytes_eq, Nat.add_comm]
  rw [word]
  refine ⟨rfl, toNat_ofNat_eq_iff line, ?_⟩
  intro short
  have counted := (text.toByteArray.data.toList.take offset).count_le_length (a := '\n'.toUInt8)
  rw [List.length_take] at counted
  exact (toNat_ofNat_eq_iff line).mpr (by omega)

/-- Inside of a character of two bytes, in front of an empty line, and behind the last
newline. -/
theorem lineAt_counts_newlines_at_end :
    ((ofText "é\n\nx\n").lineAt 1).toNat = 1 ∧ ((ofText "é\n\nx\n").lineAt 3).toNat = 2 ∧
      ((ofText "é\n\nx\n").lineAt 6).toNat = 4 :=
  ⟨(lineAt_counts_newlines "é\n\nx\n" 1 (by decide)).2.2 (by decide),
    (lineAt_counts_newlines "é\n\nx\n" 3 (by decide)).2.2 (by decide),
    (lineAt_counts_newlines "é\n\nx\n" 6 (by decide)).2.2 (by decide)⟩

end LineTable

end ScriptEngine
