import ScriptEngine.Proofs.Decimal.Unpacked
import ScriptEngine.Proofs.Value.ArrayEquality
import ScriptEngine.Proofs.Value.Present

/-!
# Equality is an equivalence relation

Equality is symmetric and transitive in every heap. Transitivity combines two ways of being equal,
as the same object and item by item, at every depth of the first comparison
(`Heap.equal?_trans_within`). Where no array contains itself and all numbers are equal to
themselves, equality is decided and reflexive too, and arrays that are equal can stand for each
other: as copies, as parts of longer arrays, and when an item is looked for
(`Heap.equality_is_equivalence`).
-/

set_option autoImplicit false

namespace ScriptEngine

open Binary64

/-- The value refers to no array that is not there, and it is equal to itself. -/
structure Value.Proper (heap : Heap) (value : Value) : Prop where
  present : value.Present heap
  number : ¬value.IsNotANumber

theorem Value.Proper.mono {heap grown : Heap} {value : Value} (proper : value.Proper heap)
    (size : heap.arrays.size ≤ grown.arrays.size) : value.Proper grown :=
  ⟨proper.present.mono size, proper.number⟩

namespace Heap

/-- No array contains itself, and all items are equal to themselves. -/
structure Regular (heap : Heap) : Prop where
  items : ∀ reference, ∀ item ∈ heap.array reference, item.Proper heap
  acyclic : ∀ reference, ¬heap.ContainsItself reference

variable {heap grown : Heap} {first second third left right : Value}

/-!
## Both ways round
-/

theorem allEqual_swap {equal swapped : Value → Value → Option Bool}
    (same : ∀ left right, equal left right = swapped right left) (lefts rights : List Value) :
    allEqual equal (lefts.zip rights) = allEqual swapped (rights.zip lefts) := by
  induction lefts generalizing rights with
  | nil => cases rights <;> rfl
  | cons left lefts ih =>
      cases rights with
      | nil => rfl
      | cons right rights => simp only [List.zip_cons_cons, allEqual, same left right, ih rights]

theorem equalWithin_comm (depth : Nat) (left right : Value) :
    heap.equalWithin depth left right = heap.equalWithin depth right left := by
  induction depth generalizing left right with
  | zero =>
      cases left <;> cases right <;> simp only [equalWithin, float_eq_comm, Bool.beq_comm, eq_comm]
  | succ depth ih =>
      cases left <;> cases right <;> simp only [equalWithin, float_eq_comm, Bool.beq_comm, eq_comm]
      rw [allEqual_swap ih]

theorem equal?_comm (left right : Value) : heap.equal? left right = heap.equal? right left :=
  equalWithin_comm heap.comparisonBound left right

/-!
## One after the other
-/

/-- Values are equal because they are the same, or as numbers, or item by item. -/
theorem equalWithin_cases {depth : Nat} (equal : heap.equalWithin depth left right = some true) :
    left = right ∨
      (∃ one other, left = .number one ∧ right = .number other ∧ (one == other) = true) ∨
      ∃ one other shallow, left = .array one ∧ right = .array other ∧ one ≠ other ∧
        depth = shallow + 1 ∧ (heap.array one).size = (heap.array other).size ∧
        allEqual (heap.equalWithin shallow)
          ((heap.array one).toList.zip (heap.array other).toList) = some true := by
  unfold equalWithin at equal
  split at equal
  case h_1 => exact .inl rfl
  case h_2 one other => exact .inr (.inl ⟨one, other, rfl, rfl, Option.some.inj equal⟩)
  case h_3 | h_4 | h_5 | h_6 =>
    rw [eq_of_beq (Option.some.inj equal)]
    exact .inl rfl
  case h_7 one other =>
    split at equal
    · next same => exact .inl (congrArg Value.array same)
    · next different =>
        cases depth with
        | zero => cases equal
        | succ shallow =>
            dsimp only at equal
            split at equal
            · next lengths =>
                exact .inr (.inr ⟨one, other, shallow, rfl, rfl, different, rfl, lengths, equal⟩)
            · cases equal
  case h_8 => cases equal

theorem equal_items {equal : Value → Value → Option Bool} {lefts rights : Array Value}
    (all : allEqual equal (lefts.toList.zip rights.toList) = some true) {position : Nat}
    (leftFound : lefts[position]? = some left) (rightFound : rights[position]? = some right) :
    equal left right = some true := by
  rw [← Array.getElem?_toList] at leftFound rightFound
  exact allEqual_eq_true.mp all (left, right)
    (List.mem_of_getElem? (List.getElem?_zip_eq_some.mpr ⟨leftFound, rightFound⟩))

/-- The first comparison sets the depth. Behind it, the second one may end at the same object or
go on item by item. -/
theorem equal?_trans_within {depth : Nat} (early : heap.equalWithin depth first second = some true)
    (late : heap.equal? second third = some true) : heap.equal? first third = some true := by
  induction depth using Nat.strong_induction_on generalizing first second third with
  | _ depth ih =>
      have direct := equal?_of_equalWithin early
      rcases equalWithin_cases early with same | ⟨one, other, rfl, rfl, equal⟩ |
        ⟨one, other, shallow, rfl, rfl, _, rfl, lengths, items⟩
      · exact same ▸ late
      · rcases equalWithin_cases late with same | ⟨_, last, same, rfl, further⟩ |
          ⟨_, _, _, same, _⟩
        · exact same ▸ direct
        · cases same
          exact congrArg some (float_eq_trans equal further)
        · cases same
      · rcases equalWithin_cases late with same | ⟨_, _, same, _⟩ |
          ⟨_, last, _, same, rfl, different, _⟩
        · exact same ▸ direct
        · cases same
        · cases same
          have further := (equal?_of_ne different).mp late
          by_cases back : one = last
          · rw [back, equal?_self_array]
          · refine (equal?_of_ne back).mpr ⟨lengths.trans further.1, ?_⟩
            intro position leftItem rightItem leftFound rightFound
            have inside := (Array.getElem?_eq_some_iff.mp leftFound).1
            have between := Array.getElem?_eq_getElem (lengths ▸ inside)
            exact ih shallow (Nat.lt_succ_self shallow) (equal_items items leftFound between)
              (further.2 position _ rightItem between rightFound)

theorem equal?_trans (early : heap.equal? first second = some true)
    (late : heap.equal? second third = some true) : heap.equal? first third = some true :=
  equal?_trans_within early late

/-- Equal values are equal to the same values. -/
theorem equal?_congr (same : heap.equal? left right = some true) (third : Value) :
    heap.equal? left third = some true ↔ heap.equal? right third = some true := by
  constructor
  · intro equal
    exact equal?_trans ((equal?_comm right left).trans same) equal
  · intro equal
    exact equal?_trans same equal

/-!
## In a heap that has grown
-/

theorem allEqual_congr {equal other : Value → Value → Option Bool} {pairs : List (Value × Value)}
    (same : ∀ pair ∈ pairs, equal pair.1 pair.2 = other pair.1 pair.2) :
    allEqual equal pairs = allEqual other pairs := by
  induction pairs with
  | nil => rfl
  | cons pair rest ih =>
      obtain ⟨first, later⟩ := List.forall_mem_cons.mp same
      simp only [allEqual, first, ih later]

section

variable (items : ∀ reference, ∀ item ∈ heap.array reference, item.Present heap)
  (appends : heap.Appends grown)

include items appends

theorem equalWithin_of_appends (depth : Nat) (leftPresent : left.Present heap)
    (rightPresent : right.Present heap) :
    grown.equalWithin depth left right = heap.equalWithin depth left right := by
  induction depth generalizing left right with
  | zero => cases left <;> cases right <;> simp only [equalWithin]
  | succ depth ih =>
      cases left <;> cases right <;> simp only [equalWithin]
      case array.array one other =>
        rw [appends.array leftPresent, appends.array rightPresent, allEqual_congr]
        intro pair member
        obtain ⟨leftMember, rightMember⟩ := List.of_mem_zip member
        exact ih (items one _ (Array.mem_toList_iff.mp leftMember))
          (items other _ (Array.mem_toList_iff.mp rightMember))

/-- New arrays make no difference to values that were there. -/
theorem equal?_of_appends (leftPresent : left.Present heap) (rightPresent : right.Present heap) :
    grown.equal? left right = heap.equal? left right := by
  have within (depth : Nat) := equalWithin_of_appends items appends depth leftPresent rightPresent
  cases found : heap.equal? left right with
  | some answer => exact equal?_of_equalWithin ((within _).trans found)
  | none =>
      cases later : grown.equal? left right with
      | none => rfl
      | some answer =>
          rw [equal?_of_equalWithin ((within _).symm.trans later)] at found
          cases found

end

/-- Joining arrays with the same items gives arrays with the same items. -/
theorem SameItems.append {one other more further joined otherJoined : ArrayRef}
    (first : heap.SameItems one other) (second : heap.SameItems more further)
    (items : grown.array joined = heap.array one ++ heap.array more)
    (otherItems : grown.array otherJoined = heap.array other ++ heap.array further)
    (kept : ∀ reference otherReference left right, left ∈ heap.array reference →
      right ∈ heap.array otherReference → heap.equal? left right = some true →
      grown.equal? left right = some true) :
    grown.SameItems joined otherJoined := by
  constructor
  · rw [items, otherItems, Array.size_append, Array.size_append, first.1, second.1]
  · intro position left right leftFound rightFound
    rw [items, Array.getElem?_append] at leftFound
    rw [otherItems, Array.getElem?_append, ← first.1] at rightFound
    split at leftFound
    · next inside =>
        rw [if_pos inside] at rightFound
        exact kept one other left right (Array.mem_of_getElem? leftFound)
          (Array.mem_of_getElem? rightFound) (first.2 position left right leftFound rightFound)
    · next behind =>
        rw [if_neg behind] at rightFound
        exact kept more further left right (Array.mem_of_getElem? leftFound)
          (Array.mem_of_getElem? rightFound) (second.2 _ left right leftFound rightFound)

/-!
## Regular heaps
-/

namespace Regular

variable (regular : heap.Regular)

include regular

theorem present (reference : ArrayRef) : ∀ item ∈ heap.array reference, item.Present heap :=
  fun item member => (regular.items reference item member).present

theorem arraysPresent : heap.ArraysPresent :=
  fun reference inner member => regular.present reference (.array inner) member

theorem not_holdsNotANumber (reference : ArrayRef) : ¬heap.HoldsNotANumber reference := by
  intro holds
  obtain ⟨item, member, odd⟩ := holds
  exact (regular.items reference item member).number odd

/-- Arrays are equal exactly if their items are, also if they are the same object. -/
theorem equal?_array_iff (one other : ArrayRef) :
    heap.equal? (.array one) (.array other) = some true ↔ heap.SameItems one other := by
  by_cases same : one = other
  · subst same
    exact iff_of_true (equal?_self_array one)
      ((sameItems_of_eq rfl).mpr (regular.not_holdsNotANumber one))
  · exact equal?_of_ne same

theorem exists_answer (left right : Value) : ∃ answer, heap.equal? left right = some answer :=
  Heap.exists_answer fun reference _ => regular.acyclic reference

/-- Being equal to the same values decides the same. -/
theorem equal?_eq_of_iff (grownRegular : grown.Regular)
    (same : grown.equal? first second = some true ↔ heap.equal? left right = some true) :
    grown.equal? first second = heap.equal? left right := by
  obtain ⟨answer, found⟩ := grownRegular.exists_answer first second
  obtain ⟨other, otherFound⟩ := regular.exists_answer left right
  rw [found, otherFound, Option.some.injEq, Option.some.injEq] at same
  rw [found, otherFound, Bool.eq_iff_iff.mpr same]

/-- A new array contains only what was there before, and so not itself. -/
theorem newArray {items : Array Value} (proper : ∀ item ∈ items, item.Proper heap) :
    (heap.newArray items).2.Regular := by
  have appends := heap.appends_newArray items
  have origin (reference : ArrayRef) :
      ∀ item ∈ (heap.newArray items).2.array reference, item.Proper heap := by
    intro item member
    rcases heap.array_newArray_cases items reference with same | same <;> rw [same] at member
    · exact proper item member
    · exact regular.items reference item member
  constructor
  · intro reference item member
    exact (origin reference item member).mono appends.size
  · intro reference contains
    obtain ⟨inner, member, held⟩ := contains
    have innerPresent : inner.address < heap.arrays.size :=
      (origin reference (.array inner) member).present
    have root : ∀ outer, Value.array inner = .array outer → outer.address < heap.arrays.size := by
      intro outer same
      cases same
      exact innerPresent
    have heldBefore := holds_of_same (fun outer found =>
      appends.array (found.present regular.arraysPresent root)) held
    have old := heldBefore.present regular.arraysPresent root
    exact regular.acyclic reference ⟨inner, appends.array old ▸ member, heldBefore⟩

theorem duplicate (value : Value) : (heap.duplicate value).2.Regular := by
  cases value with
  | array reference => exact regular.newArray (regular.items reference)
  | none | number | text | bool | record | function => exact regular

/-- A copy is equal to what its original is equal to. -/
theorem equal?_duplicate (leftPresent : left.Present heap) (rightPresent : right.Present heap) :
    (heap.duplicate left).2.equal? (heap.duplicate left).1 right = heap.equal? left right := by
  cases left with
  | array original =>
      have copied := regular.duplicate (.array original)
      have appends := heap.appends_duplicate (.array original)
      obtain ⟨copy, grown, made, items, kept, _⟩ := heap.duplicate_array original
      simp only [made] at copied appends ⊢
      have same : grown.equal? (.array copy) (.array original) = some true := by
        refine (copied.equal?_array_iff copy original).mpr ?_
        exact (sameItems_of_eq (items.trans kept.symm)).mpr (copied.not_holdsNotANumber copy)
      rw [← equal?_of_appends regular.present appends leftPresent rightPresent]
      exact copied.equal?_eq_of_iff copied (equal?_congr same right)
  | none | number | text | bool | record | function => rfl

/-- The sum of two arrays is a new array with the items of both. -/
theorem exists_sum (one more : ArrayRef) :
    ∃ joined grown, heap.add (.array one) (.array more) = .ok (.array joined, grown) ∧
      grown.Regular ∧ heap.Appends grown ∧ joined.address < grown.arrays.size ∧
      grown.array joined = heap.array one ++ heap.array more := by
  refine ⟨_, _, rfl, ?_, heap.appends_newArray _, ?_, heap.array_newArray _⟩
  · refine regular.newArray ?_
    intro item member
    rcases Array.mem_append.mp member with first | second
    · exact regular.items one item first
    · exact regular.items more item second
  · simp

/-- Sums of equal arrays are equal. -/
theorem equal?_add {one other more further : ArrayRef}
    (otherPresent : other.address < heap.arrays.size)
    (furtherPresent : further.address < heap.arrays.size)
    (first : heap.equal? (.array one) (.array other) = some true)
    (second : heap.equal? (.array more) (.array further) = some true) :
    ∃ sum otherSum grown after, heap.add (.array one) (.array more) = .ok (sum, grown) ∧
      grown.add (.array other) (.array further) = .ok (otherSum, after) ∧ after.Regular ∧
      after.equal? sum otherSum = some true := by
  obtain ⟨joined, grown, added, grownRegular, early, present, items⟩ := regular.exists_sum one more
  obtain ⟨otherJoined, after, otherAdded, afterRegular, late, _, otherItems⟩ :=
    grownRegular.exists_sum other further
  rw [← late.array present] at items
  rw [early.array otherPresent, early.array furtherPresent] at otherItems
  refine ⟨_, _, grown, after, added, otherAdded, afterRegular, ?_⟩
  refine (afterRegular.equal?_array_iff joined otherJoined).mpr
    (((regular.equal?_array_iff one other).mp first).append
      ((regular.equal?_array_iff more further).mp second) items otherItems ?_)
  intro reference otherReference left right member otherMember equal
  rw [equal?_of_appends regular.present (early.trans late)
    (regular.present reference left member) (regular.present otherReference right otherMember)]
  exact equal

/-- Where every comparison ends, so does the search in an array. -/
theorem contains_answer (reference : ArrayRef) (sought : Value) :
    ∃ answer, heap.contains (.array reference) sought = some (.ok answer) ∧
      (answer = true ↔ ∃ item ∈ heap.array reference, heap.equal? item sought = some true) := by
  rcases heap.contains_array reference sought with ⟨_, unanswered⟩ | ⟨answer, found, _, held⟩
  · obtain ⟨_, item, _, _, _, stuck⟩ := unanswered
    obtain ⟨answer, decided⟩ := regular.exists_answer item sought
    cases decided.symm.trans stuck
  · simp only [Array.mem_toList_iff] at held
    exact ⟨answer, found, held⟩

section

variable {one other : ArrayRef} {sought alike : Value}
  (arrays : heap.equal? (.array one) (.array other) = some true)
  (same : heap.equal? sought alike = some true)

include arrays same

theorem exists_equal_item (found : ∃ item ∈ heap.array one, heap.equal? item sought = some true) :
    ∃ item ∈ heap.array other, heap.equal? item alike = some true := by
  obtain ⟨item, member, equal⟩ := found
  obtain ⟨lengths, items⟩ := (regular.equal?_array_iff one other).mp arrays
  obtain ⟨position, held⟩ := Array.mem_iff_getElem?.mp member
  have inside := (Array.getElem?_eq_some_iff.mp held).1
  have there := Array.getElem?_eq_getElem (lengths ▸ inside)
  have paired := items position item _ held there
  refine ⟨_, Array.mem_of_getElem? there, equal?_trans ?_ (equal?_trans equal same)⟩
  exact (equal?_comm _ item).trans paired

/-- Equal items are in equal arrays. -/
theorem contains_eq : ∃ answer, heap.contains (.array one) sought = some (.ok answer) ∧
    heap.contains (.array other) alike = some (.ok answer) := by
  obtain ⟨answer, found, held⟩ := regular.contains_answer one sought
  obtain ⟨otherAnswer, otherFound, otherHeld⟩ := regular.contains_answer other alike
  have agree : answer = otherAnswer := by
    rw [Bool.eq_iff_iff, held, otherHeld]
    constructor
    · intro equal
      exact regular.exists_equal_item arrays same equal
    · intro equal
      exact regular.exists_equal_item ((equal?_comm _ _).trans arrays)
        ((equal?_comm _ _).trans same) equal
  exact ⟨answer, found, agree ▸ otherFound⟩

end

end Regular

/-- In a heap where no array contains itself and where no number is different from itself, equality
is decided, reflexive, symmetric and transitive. A copy is equal to just those values to which its
original is equal. Sums of equal arrays are equal, in the heap that has both, and equal arrays
contain equal values. Copies and sums leave the heap as it is required here. -/
theorem equality_is_equivalence (regular : heap.Regular) :
    (∀ left right, ∃ answer, heap.equal? left right = some answer ∧
      heap.applyBinary .equal left right = some (.ok (.bool answer, heap))) ∧
    (∀ value : Value, ¬value.IsNotANumber → heap.equal? value value = some true) ∧
    (∀ left right, heap.equal? left right = heap.equal? right left) ∧
    (∀ first second third, heap.equal? first second = some true →
      heap.equal? second third = some true → heap.equal? first third = some true) ∧
    (∀ left right : Value, left.Present heap → right.Present heap →
      ∃ copy grown, heap.duplicate left = (copy, grown) ∧ grown.Regular ∧
        grown.equal? copy right = heap.equal? left right) ∧
    (∀ one other more further : ArrayRef, other.address < heap.arrays.size →
      further.address < heap.arrays.size →
      heap.equal? (.array one) (.array other) = some true →
      heap.equal? (.array more) (.array further) = some true →
      ∃ sum otherSum grown after, heap.add (.array one) (.array more) = .ok (sum, grown) ∧
        grown.add (.array other) (.array further) = .ok (otherSum, after) ∧ after.Regular ∧
        after.equal? sum otherSum = some true) ∧
    ∀ (one other : ArrayRef) (sought alike : Value),
      heap.equal? (.array one) (.array other) = some true →
      heap.equal? sought alike = some true →
      ∃ answer, heap.contains (.array one) sought = some (.ok answer) ∧
        heap.contains (.array other) alike = some (.ok answer) := by
  refine ⟨?_, ?_, equal?_comm, fun _ _ _ => equal?_trans, ?_, ?_, ?_⟩
  · intro left right
    obtain ⟨answer, found⟩ := regular.exists_answer left right
    refine ⟨answer, found, ?_⟩
    simp only [applyBinary, found, Option.map_some, Except.map]
  · intro value plain
    exact (equal?_self value).mpr plain
  · intro left right leftPresent rightPresent
    exact ⟨_, _, rfl, regular.duplicate left, regular.equal?_duplicate leftPresent rightPresent⟩
  · intro one other more further otherPresent furtherPresent first second
    exact regular.equal?_add otherPresent furtherPresent first second
  · intro one other sought alike arrays same
    exact regular.contains_eq arrays same

/-- Two arrays hold different objects, in which zero stands with different signs. -/
theorem equality_of_arrays_of_signed_zeros :
    ∃ (heap : Heap) (one other : ArrayRef), heap.Regular ∧ one ≠ other ∧
      heap.equal? (.array one) (.array other) = some true ∧
      (∃ copy grown, heap.duplicate (.array one) = (copy, grown) ∧
        grown.equal? copy (.array other) = some true) ∧
      ∃ sum otherSum grown after, heap.add (.array one) (.array other) = .ok (sum, grown) ∧
        grown.add (.array other) (.array one) = .ok (otherSum, after) ∧
        after.equal? sum otherSum = some true := by
  let heap : Heap :=
    ⟨#[#[.number 0], #[.number (-0)], #[.array ⟨0⟩], #[.array ⟨1⟩]], #[], #[]⟩
  have zero : ¬(Value.number 0).IsNotANumber := show ¬((0 : Float) == 0) = false by decide +kernel
  have negated : ¬(Value.number (-0)).IsNotANumber :=
    show ¬((-0 : Float) == -0) = false by decide +kernel
  have items (reference : ArrayRef) : ∀ item ∈ heap.array reference, item.Proper heap := by
    obtain ⟨_ | _ | _ | _ | address⟩ := reference
    · simpa [heap, array] using ⟨trivial, zero⟩
    · simpa [heap, array] using ⟨trivial, negated⟩
    · simpa [heap, array] using ⟨show 0 < 4 by decide, id⟩
    · simpa [heap, array] using ⟨show 1 < 4 by decide, id⟩
    · simp [heap, array]
  have acyclic : ∀ reference, ¬heap.ContainsItself reference := by
    refine not_containsItself_of_older ?_
    intro reference inner member
    obtain ⟨_ | _ | _ | _ | address⟩ := reference
    · simp [heap, array] at member
    · simp [heap, array] at member
    · have first : inner = ⟨0⟩ := by simpa [heap, array] using member
      simp [first]
    · have second : inner = ⟨1⟩ := by simpa [heap, array] using member
      simp [second]
    · simp [heap, array] at member
  have regular : heap.Regular := ⟨items, acyclic⟩
  have same : heap.equal? (.array ⟨2⟩) (.array ⟨3⟩) = some true :=
    equal?_of_equalWithin (show heap.equalWithin 2 (.array ⟨2⟩) (.array ⟨3⟩) = some true by
      decide +kernel)
  obtain ⟨_, _, symmetric, _, copies, sums, _⟩ := equality_is_equivalence regular
  obtain ⟨copy, grown, copied, _, equal⟩ :=
    copies (.array ⟨2⟩) (.array ⟨3⟩) (show 2 < 4 by decide) (show 3 < 4 by decide)
  obtain ⟨sum, otherSum, extended, after, added, otherAdded, _, equalSums⟩ :=
    sums ⟨2⟩ ⟨3⟩ ⟨3⟩ ⟨2⟩ (show 3 < 4 by decide) (show 2 < 4 by decide) same
      ((symmetric _ _).trans same)
  exact ⟨heap, ⟨2⟩, ⟨3⟩, regular, by decide, same, ⟨copy, grown, copied, equal.trans same⟩,
    sum, otherSum, extended, after, added, otherAdded, equalSums⟩

end Heap

end ScriptEngine
