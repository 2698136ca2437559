import ScriptEngine.Proofs.Value.Comparison
import ScriptEngine.Proofs.Value.Copies

/-!
# Equality of arrays

Two arrays are compared item by item, and an item that is an array is compared in the same
way. The comparison looks at the items only if the two are not the same object. It comes to an
end unless it runs in circles: what it comes down to, step by step, goes on for ever exactly if
no depth decides it, and then on both sides there is an array that contains itself
(`Heap.comparison_ends_without_circles`). Scripts can build such arrays, since an assignment to
an element of an inner array does not copy the outer one
(`Session.arrays_compared_for_ever`).

Where no array contains itself, two arrays are equal exactly if their items are, but for one
exception: a number that is not equal to itself makes an array different from its copies, while
the array is still the same object as itself (`Heap.arrays_are_equal_by_items`).
-/

set_option autoImplicit false

namespace ScriptEngine

/-- A number that is not even equal to itself. -/
def Value.IsNotANumber : Value → Prop
  | number value => (value == value) = false
  | _ => False

namespace Heap

/-- The array is found in one of its own items. -/
def ContainsItself (heap : Heap) (reference : ArrayRef) : Prop :=
  ∃ inner, .array inner ∈ heap.array reference ∧ heap.Holds (.array inner) reference

/-- No array that is found in the value contains itself. -/
def FreeOfCycles (heap : Heap) (value : Value) : Prop :=
  ∀ reference, heap.Holds value reference → ¬heap.ContainsItself reference

/-- Comparing the first two values comes down to comparing the other two: these stand at one
position of two different arrays of the same length, behind items that are equal. -/
inductive Descends (heap : Heap) : Value × Value → Value × Value → Prop where
  | items {left right : ArrayRef} {position : Nat} {leftItem rightItem : Value}
      (different : left ≠ right) (lengths : (heap.array left).size = (heap.array right).size)
      (leftHeld : (heap.array left)[position]? = some leftItem)
      (rightHeld : (heap.array right)[position]? = some rightItem)
      (equalBefore : ∀ earlier < position, ∀ leftOther rightOther,
        (heap.array left)[earlier]? = some leftOther →
        (heap.array right)[earlier]? = some rightOther →
        heap.equal? leftOther rightOther = some true) :
      Descends heap (.array left, .array right) (leftItem, rightItem)

/-- Comparing the values comes down to two others, then to two others again, and so on for
ever. -/
def Endless (heap : Heap) (left right : Value) : Prop :=
  ∃ pairs : Nat → Value × Value, pairs 0 = (left, right) ∧
    ∀ step, heap.Descends (pairs step) (pairs (step + 1))

variable {heap : Heap} {left right : Value}

/-!
## Comparing item by item
-/

section

variable {equal : Value → Value → Option Bool} {pairs : List (Value × Value)}

theorem allEqual_eq_true :
    allEqual equal pairs = some true ↔ ∀ pair ∈ pairs, equal pair.1 pair.2 = some true := by
  induction pairs with
  | nil => simp [allEqual]
  | cons pair rest ih =>
      obtain ⟨left, right⟩ := pair
      have first : allEqual equal ((left, right) :: rest) = some true ↔
          equal left right = some true ∧ allEqual equal rest = some true := by
        rw [allEqual]
        cases equal left right with
        | none => simp
        | some truth => cases truth <;> simp
      rw [first, ih, List.forall_mem_cons]

/-- Without an answer there is a first pair without one, behind pairs that are equal. -/
theorem exists_of_allEqual_eq_none (undecided : allEqual equal pairs = none) :
    ∃ (position : Nat) (one other : Value), pairs[position]? = some (one, other) ∧
      equal one other = none ∧ ∀ earlier : Nat, earlier < position → ∀ left right,
        pairs[earlier]? = some (left, right) → equal left right = some true := by
  induction pairs with
  | nil => cases undecided
  | cons pair rest ih =>
      obtain ⟨left, right⟩ := pair
      rw [allEqual] at undecided
      cases first : equal left right with
      | none => exact ⟨0, left, right, rfl, first, fun _ none => absurd none (Nat.not_lt_zero _)⟩
      | some truth =>
          rw [first] at undecided
          cases truth with
          | false => cases undecided
          | true =>
              obtain ⟨position, one, other, held, missing, before⟩ := ih undecided
              refine ⟨position + 1, one, other, held, missing, ?_⟩
              intro earlier less one other found
              cases earlier with
              | zero =>
                  cases found
                  exact first
              | succ earlier => exact before earlier (Nat.lt_of_succ_lt_succ less) one other found

/-- An answer for all pairs needs one for each pair behind pairs that are not different. -/
theorem decided_of_allEqual {answer : Bool} (decided : allEqual equal pairs = some answer)
    {position : Nat} {one other : Value} (held : pairs[position]? = some (one, other))
    (before : ∀ earlier : Nat, earlier < position → ∀ left right,
      pairs[earlier]? = some (left, right) → equal left right ≠ some false) :
    ∃ answer, equal one other = some answer := by
  induction pairs generalizing position with
  | nil => cases held
  | cons pair rest ih =>
      obtain ⟨left, right⟩ := pair
      rw [allEqual] at decided
      cases first : equal left right with
      | none =>
          rw [first] at decided
          cases decided
      | some truth =>
          rw [first] at decided
          cases position with
          | zero =>
              cases held
              exact ⟨truth, first⟩
          | succ position =>
              cases truth with
              | false => exact absurd first (before 0 (Nat.succ_pos _) left right rfl)
              | true =>
                  refine ih decided held ?_
                  intro earlier less
                  exact before (earlier + 1) (Nat.succ_lt_succ less)

end

/-- Two arrays are the same object, or have items that are equal one by one. -/
theorem equal?_array (left right : ArrayRef) :
    heap.equal? (.array left) (.array right) =
      if left = right then some true
      else if (heap.array left).size = (heap.array right).size then
        allEqual heap.equal? ((heap.array left).toList.zip (heap.array right).toList)
      else some false := by
  have settled := settled_comparisonBound heap (.array left) (.array right)
  simp only [equalWithin, Array.length_toList] at settled
  exact settled.symm

theorem equal?_self_array (reference : ArrayRef) :
    heap.equal? (.array reference) (.array reference) = some true := by
  rw [equal?_array, if_pos rfl]

theorem arrays_of_equal?_eq_none (undecided : heap.equal? left right = none) :
    ∃ leftArray rightArray, left = .array leftArray ∧ right = .array rightArray := by
  rw [equal?, ← settled_comparisonBound heap] at undecided
  obtain ⟨leftArray, rightArray, rfl, rfl, _⟩ := arrays_of_undecided undecided
  exact ⟨leftArray, rightArray, rfl, rfl⟩

/-!
## Comparisons without an end
-/

theorem descends_of_undecided (undecided : heap.equal? left right = none) :
    ∃ inner : Value × Value, heap.Descends (left, right) inner ∧
      heap.equal? inner.1 inner.2 = none := by
  obtain ⟨leftArray, rightArray, rfl, rfl⟩ := arrays_of_equal?_eq_none undecided
  rw [equal?_array] at undecided
  split at undecided
  · cases undecided
  · next different =>
      split at undecided
      · next lengths =>
          obtain ⟨position, one, other, held, missing, before⟩ :=
            exists_of_allEqual_eq_none undecided
          obtain ⟨leftHeld, rightHeld⟩ := List.getElem?_zip_eq_some.mp held
          rw [Array.getElem?_toList] at leftHeld rightHeld
          refine ⟨(one, other), .items different lengths leftHeld rightHeld ?_, missing⟩
          intro earlier less leftOther rightOther leftFound rightFound
          rw [← Array.getElem?_toList] at leftFound rightFound
          exact before earlier less leftOther rightOther
            (List.getElem?_zip_eq_some.mpr ⟨leftFound, rightFound⟩)
      · cases undecided

/-- Each pair that is not decided comes down to another one. -/
theorem endless_of_undecided (undecided : heap.equal? left right = none) :
    heap.Endless left right := by
  have further (pair : { pair : Value × Value // heap.equal? pair.1 pair.2 = none }) :
      ∃ inner : { pair : Value × Value // heap.equal? pair.1 pair.2 = none },
        heap.Descends pair.1 inner.1 := by
    obtain ⟨inner, descends, missing⟩ := descends_of_undecided pair.2
    exact ⟨⟨inner, missing⟩, descends⟩
  choose next descends using further
  refine ⟨fun step => (next^[step] ⟨(left, right), undecided⟩).1, rfl, ?_⟩
  intro step
  simp only [Function.iterate_succ_apply']
  exact descends _

/-- At no depth is there an answer for a pair that comes down to others for ever. -/
theorem undecided_of_endless (endless : heap.Endless left right) :
    heap.equal? left right = none := by
  obtain ⟨pairs, start, descends⟩ := endless
  have never (depth step : Nat) (answer : Bool) :
      heap.equalWithin depth (pairs step).1 (pairs step).2 ≠ some answer := by
    intro decided
    induction depth generalizing step answer with
    | zero =>
        have here := descends step
        generalize pairs step = outer at here decided
        generalize pairs (step + 1) = inner at here
        cases here with
        | items different => simp [equalWithin, different] at decided
    | succ depth ih =>
        have later := ih (step + 1)
        have here := descends step
        generalize pairs step = outer at here decided
        generalize pairs (step + 1) = inner at here later
        cases here with
        | @items left right position leftItem rightItem different lengths leftHeld rightHeld before =>
            simp only [equalWithin, if_neg different, Array.length_toList, if_pos lengths] at decided
            rw [← Array.getElem?_toList] at leftHeld rightHeld
            obtain ⟨answer, found⟩ := decided_of_allEqual decided
              (List.getElem?_zip_eq_some.mpr ⟨leftHeld, rightHeld⟩) (by
                intro earlier less one other pair differ
                obtain ⟨leftFound, rightFound⟩ := List.getElem?_zip_eq_some.mp pair
                rw [Array.getElem?_toList] at leftFound rightFound
                have same := before earlier less one other leftFound rightFound
                rw [equal?_of_equalWithin differ] at same
                cases same)
            exact later answer found
  cases answer : heap.equal? left right with
  | none => rfl
  | some truth =>
      refine absurd ?_ (never heap.comparisonBound 0 truth)
      rw [start]
      exact answer

/-!
## Arrays within arrays
-/

open Classical in
/-- The arrays of the heap that are found in the value. -/
noncomputable def arraysIn (heap : Heap) (value : Value) : Finset Nat :=
  (Finset.range heap.arrays.size).filter fun address => heap.Holds value ⟨address⟩

theorem mem_arraysIn {address : Nat} :
    address ∈ heap.arraysIn left ↔ address < heap.arrays.size ∧ heap.Holds left ⟨address⟩ := by
  simp [arraysIn]

theorem Holds.trans {outer inner : ArrayRef} (held : heap.Holds left outer)
    (further : heap.Holds (.array outer) inner) : heap.Holds left inner := by
  induction further with
  | root same =>
      cases same
      exact held
  | item _ member ih => exact .item ih member

/-- An item of an array that does not contain itself holds fewer arrays. -/
theorem arraysIn_ssubset {reference inner : ArrayRef} (plain : ¬heap.ContainsItself reference)
    (member : .array inner ∈ heap.array reference) :
    heap.arraysIn (.array inner) ⊂ heap.arraysIn (.array reference) := by
  have present : reference.address < heap.arrays.size := by
    refine Nat.lt_of_not_le fun absent => ?_
    simp [array, Array.getElem?_eq_none absent] at member
  refine (Finset.ssubset_iff_of_subset ?_).mpr ⟨reference.address, ?_, ?_⟩
  · intro address found
    obtain ⟨inside, held⟩ := mem_arraysIn.mp found
    exact mem_arraysIn.mpr ⟨inside, .trans (.item (.root rfl) member) held⟩
  · exact mem_arraysIn.mpr ⟨present, .root rfl⟩
  · intro found
    exact plain ⟨inner, member, (mem_arraysIn.mp found).2⟩

/-- A row of arrays each of which is an item of the one before does not go on for ever, unless it
comes to an array that contains itself. -/
theorem not_freeOfCycles_of_row (row : Nat → Value)
    (held : ∀ step, ∃ reference, row step = .array reference ∧
      row (step + 1) ∈ heap.array reference) :
    ¬heap.FreeOfCycles (row 0) := by
  intro free
  have inside (step : Nat) : ∃ reference, row step = .array reference ∧
      heap.Holds (row 0) reference := by
    induction step with
    | zero =>
        obtain ⟨reference, same, _⟩ := held 0
        exact ⟨reference, same, .root same⟩
    | succ step ih =>
        obtain ⟨outer, same, found⟩ := ih
        obtain ⟨reference, again, member⟩ := held step
        obtain ⟨inner, next, _⟩ := held (step + 1)
        rw [same] at again
        cases again
        rw [next] at member
        exact ⟨inner, next, .item found member⟩
  have fewer (step : Nat) :
      (heap.arraysIn (row (step + 1))).card < (heap.arraysIn (row step)).card := by
    obtain ⟨reference, same, member⟩ := held step
    obtain ⟨_, again, found⟩ := inside step
    obtain ⟨inner, next, _⟩ := held (step + 1)
    rw [same] at again
    cases again
    rw [next] at member
    rw [same, next]
    exact Finset.card_lt_card (arraysIn_ssubset (free _ found) member)
  have bounded (step : Nat) :
      (heap.arraysIn (row step)).card + step ≤ (heap.arraysIn (row 0)).card := by
    induction step with
    | zero => exact Nat.le_refl _
    | succ step ih =>
        have less := fewer step
        omega
  have last := bounded ((heap.arraysIn (row 0)).card + 1)
  omega

theorem Descends.members {outer inner : Value × Value} (descends : heap.Descends outer inner) :
    (∃ reference, outer.1 = .array reference ∧ inner.1 ∈ heap.array reference) ∧
      ∃ reference, outer.2 = .array reference ∧ inner.2 ∈ heap.array reference := by
  cases descends with
  | items _ _ leftHeld rightHeld =>
      exact ⟨⟨_, rfl, Array.mem_of_getElem? leftHeld⟩, ⟨_, rfl, Array.mem_of_getElem? rightHeld⟩⟩

theorem Endless.cyclic (endless : heap.Endless left right) :
    ¬heap.FreeOfCycles left ∧ ¬heap.FreeOfCycles right := by
  obtain ⟨pairs, start, descends⟩ := endless
  have leftRow := not_freeOfCycles_of_row (fun step => (pairs step).1) fun step =>
    (descends step).members.1
  have rightRow := not_freeOfCycles_of_row (fun step => (pairs step).2) fun step =>
    (descends step).members.2
  simp only [start] at leftRow rightRow
  exact ⟨leftRow, rightRow⟩

theorem undecided_iff_endless : heap.equal? left right = none ↔ heap.Endless left right :=
  ⟨endless_of_undecided, undecided_of_endless⟩

theorem exists_answer (free : heap.FreeOfCycles left) :
    ∃ answer, heap.equal? left right = some answer := by
  cases found : heap.equal? left right with
  | some answer => exact ⟨answer, rfl⟩
  | none => exact ((endless_of_undecided found).cyclic.1 free).elim

/-- A comparison without an answer at this depth has none at any. -/
theorem endless_of_equalWithin (undecided :
      heap.equalWithin (heap.arrays.size * heap.arrays.size + 1) left right = none) :
    heap.Endless left right := by
  refine undecided_iff_endless.mp ?_
  rw [equal?, (settled_at_pairs heap).equalWithin (pairs_le_comparisonBound heap)]
  exact undecided

/-- Comparing two values comes to an end, at some depth, unless it comes down to other values
for ever. It does so only if both of the values lead to an array that contains itself. -/
theorem comparison_ends_without_circles (heap : Heap) (left right : Value) :
    ((∃ depth answer, heap.equalWithin depth left right = some answer) ↔
      ¬heap.Endless left right) ∧
    (heap.Endless left right → ¬heap.FreeOfCycles left ∧ ¬heap.FreeOfCycles right) := by
  refine ⟨?_, Endless.cyclic⟩
  rw [← undecided_iff_endless]
  constructor
  · intro decided undecided
    obtain ⟨depth, answer, decided⟩ := decided
    rw [equal?_of_equalWithin decided] at undecided
    cases undecided
  · intro decided
    obtain ⟨answer, found⟩ := Option.ne_none_iff_exists'.mp decided
    exact ⟨heap.comparisonBound, answer, found⟩

/-!
## Equality and items
-/

/-- The arrays have the same length, and their items are equal one by one. -/
def SameItems (heap : Heap) (left right : ArrayRef) : Prop :=
  (heap.array left).size = (heap.array right).size ∧
    ∀ (position : Nat) leftItem rightItem, (heap.array left)[position]? = some leftItem →
      (heap.array right)[position]? = some rightItem →
      heap.equal? leftItem rightItem = some true

/-- One of the items is a number that is not equal to itself. -/
def HoldsNotANumber (heap : Heap) (reference : ArrayRef) : Prop :=
  ∃ item ∈ heap.array reference, item.IsNotANumber

theorem equal?_self (value : Value) :
    heap.equal? value value = some true ↔ ¬value.IsNotANumber := by
  cases value with
  | number number => simp [equal?, equalWithin, Value.IsNotANumber]
  | array reference => simp [equal?_self_array, Value.IsNotANumber]
  | none | text | bool | record | function => simp [equal?, equalWithin, Value.IsNotANumber]

section

variable {leftArray rightArray : ArrayRef}

/-- Different arrays are equal if their items are, and only then. -/
theorem equal?_of_ne (different : leftArray ≠ rightArray) :
    heap.equal? (.array leftArray) (.array rightArray) = some true ↔
      heap.SameItems leftArray rightArray := by
  rw [equal?_array, if_neg different]
  constructor
  · intro equal
    split at equal
    · next lengths =>
        refine ⟨lengths, ?_⟩
        intro position leftItem rightItem leftFound rightFound
        rw [← Array.getElem?_toList] at leftFound rightFound
        exact allEqual_eq_true.mp equal (leftItem, rightItem)
          (List.mem_of_getElem? (List.getElem?_zip_eq_some.mpr ⟨leftFound, rightFound⟩))
    · cases equal
  · intro same
    rw [if_pos same.1]
    refine allEqual_eq_true.mpr ?_
    intro pair member
    obtain ⟨leftItem, rightItem⟩ := pair
    obtain ⟨position, found⟩ := List.getElem?_of_mem member
    obtain ⟨leftFound, rightFound⟩ := List.getElem?_zip_eq_some.mp found
    rw [Array.getElem?_toList] at leftFound rightFound
    exact same.2 position leftItem rightItem leftFound rightFound

variable (same : heap.array leftArray = heap.array rightArray)

include same

theorem sameItems_of_eq :
    heap.SameItems leftArray rightArray ↔ ¬heap.HoldsNotANumber leftArray := by
  constructor
  · intro items held
    obtain ⟨item, member, odd⟩ := held
    obtain ⟨position, found⟩ := Array.mem_iff_getElem?.mp member
    exact (equal?_self item).mp (items.2 position item item found (same ▸ found)) odd
  · intro plain
    refine ⟨congrArg Array.size same, ?_⟩
    intro position leftItem rightItem leftFound rightFound
    rw [← same, leftFound] at rightFound
    cases rightFound
    exact (equal?_self leftItem).mpr fun odd =>
      plain ⟨leftItem, Array.mem_of_getElem? leftFound, odd⟩

/-- Comparing arrays of the very same items comes to an end at once. -/
theorem exists_answer_of_eq :
    ∃ answer, heap.equal? (.array leftArray) (.array rightArray) = some answer := by
  cases found : heap.equal? (.array leftArray) (.array rightArray) with
  | some answer => exact ⟨answer, rfl⟩
  | none =>
      obtain ⟨inner, descends, missing⟩ := descends_of_undecided found
      cases descends with
      | @items _ _ _ leftItem rightItem _ _ leftHeld rightHeld _ =>
          rw [← same, leftHeld] at rightHeld
          cases rightHeld
          obtain ⟨reference, _, again, _⟩ := arrays_of_equal?_eq_none missing
          subst again
          rw [equal?_self_array] at missing
          cases missing

end

/-- The copy of an array is a new array with the same items. -/
theorem duplicate_array (reference : ArrayRef) :
    ∃ copy grown, heap.duplicate (.array reference) = (.array copy, grown) ∧
      grown.array copy = heap.array reference ∧ grown.array reference = heap.array reference ∧
      (reference = copy → heap.array reference = #[]) := by
  refine ⟨_, _, rfl, array_newArray heap _, ?_, ?_⟩
  · rcases Nat.lt_trichotomy reference.address heap.arrays.size with present | last | absent
    · exact array_newArray_of_lt heap _ present
    · simp [array, last]
    · simp [array, Array.getElem?_push, Nat.ne_of_gt absent]
  · intro same
    simp [same, array]

/-- Suppose that no array contains itself. Then comparing two arrays comes to an end. They are
equal exactly if their items are equal one by one, with one exception: an array with an item that
is not equal to itself, which only a number can be, is still equal to itself as the same object.
It is not equal to a copy of it, while any other array is. -/
theorem arrays_are_equal_by_items (acyclic : ∀ reference, ¬heap.ContainsItself reference)
    (leftArray rightArray : ArrayRef) :
    (∃ answer, heap.equal? (.array leftArray) (.array rightArray) = some answer ∧
      (answer = true ↔ heap.SameItems leftArray rightArray ∨
        leftArray = rightArray ∧ heap.HoldsNotANumber leftArray)) ∧
    ∃ copy grown answer, heap.duplicate (.array leftArray) = (.array copy, grown) ∧
      grown.array copy = heap.array leftArray ∧
      grown.equal? (.array leftArray) (.array copy) = some answer ∧
      (answer = true ↔ ¬heap.HoldsNotANumber leftArray) := by
  constructor
  · obtain ⟨answer, found⟩ : ∃ answer,
        heap.equal? (.array leftArray) (.array rightArray) = some answer :=
      exists_answer fun reference _ => acyclic reference
    refine ⟨answer, found, ?_⟩
    by_cases same : leftArray = rightArray
    · subst same
      rw [equal?_self_array] at found
      cases found
      rw [sameItems_of_eq rfl]
      simp [Classical.em, or_comm]
    · have items : heap.equal? (.array leftArray) (.array rightArray) = some true ↔
          heap.SameItems leftArray rightArray := equal?_of_ne same
      rw [found, Option.some.injEq] at items
      simp [items, same]
  · obtain ⟨copy, grown, duplicated, copied, kept, empty⟩ := heap.duplicate_array leftArray
    obtain ⟨answer, found⟩ := exists_answer_of_eq (kept.trans copied.symm)
    refine ⟨copy, grown, answer, duplicated, copied, found, ?_⟩
    by_cases same : leftArray = copy
    · have plain : ¬heap.HoldsNotANumber leftArray := by simp [HoldsNotANumber, empty same]
      rw [← same, equal?_self_array] at found
      cases found
      simp [plain]
    · have items := sameItems_of_eq (kept.trans copied.symm)
      simp only [HoldsNotANumber, kept] at items
      rw [HoldsNotANumber, ← items, ← equal?_of_ne same, found, Option.some.injEq]

/-- Arrays whose items are all older than themselves do not contain themselves. -/
theorem not_containsItself_of_older
    (older : ∀ reference inner, .array inner ∈ heap.array reference →
      inner.address < reference.address) (reference : ArrayRef) :
    ¬heap.ContainsItself reference := by
  intro contains
  obtain ⟨first, member, held⟩ := contains
  have below {found : ArrayRef} (held : heap.Holds (.array first) found) :
      found.address ≤ first.address := by
    induction held with
    | root same =>
        cases same
        exact Nat.le_refl _
    | item _ member ih => exact Nat.le_trans (Nat.le_of_lt (older _ _ member)) ih
  exact Nat.lt_irrefl _ (Nat.lt_of_lt_of_le (older _ _ member) (below held))

/-- Two arrays with the same items are equal, though the number that they hold is not equal to
itself. The array of the number alone differs from its copy. -/
theorem array_of_odd_number_differs_from_copy :
    ∃ heap : Heap, ∃ left right odd : ArrayRef, (∀ reference, ¬heap.ContainsItself reference) ∧
      left ≠ right ∧ heap.equal? (.array left) (.array right) = some true ∧
      ∃ copy grown, heap.duplicate (.array odd) = (.array copy, grown) ∧
        grown.equal? (.array odd) (.array copy) = some false := by
  have acyclic : ∀ reference, ¬ContainsItself
      ⟨#[#[.number (0 / 0)], #[.array ⟨0⟩], #[.array ⟨0⟩]], #[], #[]⟩ reference := by
    refine not_containsItself_of_older ?_
    intro reference inner member
    obtain ⟨address⟩ := reference
    match address with
    | 0 | _ + 3 => simp [array] at member
    | 1 | 2 =>
        have first : inner = ⟨0⟩ := by simpa [array] using member
        simp [first]
  have items : SameItems
      ⟨#[#[.number (0 / 0)], #[.array ⟨0⟩], #[.array ⟨0⟩]], #[], #[]⟩ ⟨1⟩ ⟨2⟩ :=
    (sameItems_of_eq rfl).mpr (by simp [HoldsNotANumber, array, Value.IsNotANumber])
  have odd : HoldsNotANumber
      ⟨#[#[.number (0 / 0)], #[.array ⟨0⟩], #[.array ⟨0⟩]], #[], #[]⟩ ⟨0⟩ := by
    have notANumber : ((0 / 0 : Float) == 0 / 0) = false := by decide +kernel
    exact ⟨.number (0 / 0), by simp [array], notANumber⟩
  obtain ⟨answer, found, same⟩ := (arrays_are_equal_by_items acyclic ⟨1⟩ ⟨2⟩).1
  obtain ⟨copy, grown, other, duplicated, _, differ, plain⟩ :=
    (arrays_are_equal_by_items acyclic ⟨0⟩ ⟨0⟩).2
  refine ⟨_, ⟨1⟩, ⟨2⟩, ⟨0⟩, acyclic, by decide, ?_, copy, grown, duplicated, ?_⟩
  · rw [found, same.mpr (.inl items)]
  · rw [differ, Bool.eq_false_iff.mpr fun equal => plain.mp equal odd]

end Heap

namespace Session

/-- The array is equal to itself, but its copy is not equal to it. -/
theorem array_equals_itself_but_no_copy :
    ∃ script started after,
      Script.ofSource "a = [0 / 0]\nb = a\nprint a == a\nprint a == b\n" = .ok script ∧
      (Session.new none).run script = .ok started ∧
      execute 100 started = (.value (), after) ∧ after.output = "True\nFalse\n" := by
  have passed : ((Script.ofSource "a = [0 / 0]\nb = a\nprint a == a\nprint a == b\n"
      ).toOption.any fun script =>
        ((Session.new none).run script).toOption.any fun started =>
          returns (execute 100 started) fun _ after => after.output == "True\nFalse\n") =
      true := by decide +kernel
  obtain ⟨script, started, accepted, begun, passed⟩ := eq_of_runs passed
  obtain ⟨_, after, ended, output⟩ := eq_of_returns passed
  exact ⟨script, started, after, accepted, begun, ended, eq_of_beq output⟩

/-- An array is stored, as a copy, in an item of one of its own items. Then comparing the array
with this item has no end, and a script that does so never comes to its next statement. -/
theorem arrays_compared_for_ever :
    ∃ script started comparing comparingStarted after outer inner,
      Script.ofSource "a = [[0]]\na[0][0] = a\n" = .ok script ∧
      (Session.new none).run script = .ok started ∧ execute 100 started = (.value (), after) ∧
      (after.heap.record after.globals).get? "a" = some outer ∧
      after.heap.element outer (.number 0) = .ok inner ∧
      (∀ depth, after.heap.equalWithin depth outer inner = none) ∧
      Script.ofSource "a = [[0]]\na[0][0] = a\nif a == a[0]: pass\na = None\nprint 1\n" =
        .ok comparing ∧
      (Session.new none).run comparing = .ok comparingStarted ∧
      ∀ turns, (execute turns comparingStarted).1 = .unfinished := by
  have hanging : ((Script.ofSource
      "a = [[0]]\na[0][0] = a\nif a == a[0]: pass\na = None\nprint 1\n").toOption.any
        fun script => ((Session.new none).run script).toOption.any fun started =>
          hangs 100 started) = true := by decide +kernel
  have passed : ((Script.ofSource "a = [[0]]\na[0][0] = a\n").toOption.any fun script =>
        ((Session.new none).run script).toOption.any fun started =>
          returns (execute 100 started) fun _ after =>
            ((after.heap.record after.globals).get? "a").any fun outer =>
              (after.heap.element outer (.number 0)).toOption.any fun inner =>
                (after.heap.equalWithin (after.heap.arrays.size * after.heap.arrays.size + 1)
                  outer inner).isNone) =
      true := by decide +kernel
  obtain ⟨script, started, accepted, begun, passed⟩ := eq_of_runs passed
  obtain ⟨_, after, ended, passed⟩ := eq_of_returns passed
  obtain ⟨outer, bound, passed⟩ := (Option.any_eq_true _ _).mp passed
  obtain ⟨inner, item, undecided⟩ := ok_of_any passed
  obtain ⟨comparing, comparingStarted, comparingAccepted, comparingBegun, hanging⟩ :=
    eq_of_runs hanging
  refine ⟨script, started, comparing, comparingStarted, after, outer, inner, accepted, begun, ended,
    bound, item, ?_, comparingAccepted, comparingBegun, unfinished_of_hangs hanging⟩
  intro depth
  have endless := Heap.undecided_of_endless (Heap.endless_of_equalWithin (by simpa using undecided))
  cases decided : after.heap.equalWithin depth outer inner with
  | none => rfl
  | some answer =>
      rw [Heap.equal?_of_equalWithin decided] at endless
      cases endless

end Session

end ScriptEngine
