import Mathlib.Data.Finset.Card
import Mathlib.Data.Finset.Prod
import ScriptEngine.Value.Operation

/-!
# The bound of a comparison is no limit

Comparing two values descends into pairs of arrays. The pairs that are left undecided get
fewer with the depth, and once they stay the same they stay so for ever: the answers at the
next depth are computed from them. There are no more pairs than two arrays of the heap make,
so at `Heap.comparisonBound` every comparison is decided that is decided at any depth
(`Heap.equal?_of_equalWithin`).

An array is searched from left to right. The search ends with an answer unless it comes to an
item whose comparison goes on for ever (`Heap.holdsEqual_eq_none_iff`).
-/

set_option autoImplicit false

namespace ScriptEngine.Heap

theorem allEqual_mono {equal deeper : Value → Value → Option Bool} {pairs : List (Value × Value)}
    {answer : Bool}
    (decided : ∀ left right answer, equal left right = some answer →
      deeper left right = some answer)
    (found : allEqual equal pairs = some answer) : allEqual deeper pairs = some answer := by
  induction pairs with
  | nil => exact found
  | cons pair rest ih =>
      obtain ⟨left, right⟩ := pair
      simp only [allEqual] at found ⊢
      cases first : equal left right with
      | none =>
          rw [first] at found
          cases found
      | some truth =>
          rw [first] at found
          rw [decided left right truth first]
          cases truth with
          | true => exact ih found
          | false => exact found

variable {heap : Heap}

/-- What is decided stays decided at greater depths. -/
theorem equalWithin_succ {depth : Nat} {left right : Value} {answer : Bool}
    (decided : heap.equalWithin depth left right = some answer) :
    heap.equalWithin (depth + 1) left right = some answer := by
  induction depth generalizing left right answer with
  | zero =>
      cases left <;> cases right <;> simp only [equalWithin] at decided ⊢ <;> try exact decided
      split at decided
      · next same =>
          rw [if_pos same]
          exact decided
      · cases decided
  | succ depth ih =>
      cases left <;> cases right <;> simp only [equalWithin] at decided ⊢ <;> try exact decided
      split at decided
      · next same =>
          rw [if_pos same]
          exact decided
      · next different =>
          rw [if_neg different]
          split at decided
          · next lengths =>
              rw [if_pos lengths]
              exact allEqual_mono (fun _ _ _ => ih) decided
          · next lengths =>
              rw [if_neg lengths]
              exact decided

theorem equalWithin_mono {depth deeper : Nat} (deep : depth ≤ deeper) {left right : Value}
    {answer : Bool} (decided : heap.equalWithin depth left right = some answer) :
    heap.equalWithin deeper left right = some answer := by
  induction deep with
  | refl => exact decided
  | step _ ih => exact equalWithin_succ ih

/-- Only two arrays of the heap can be left undecided at the second level. -/
theorem arrays_of_undecided {depth : Nat} {left right : Value}
    (undecided : heap.equalWithin (depth + 1) left right = none) :
    ∃ leftArray rightArray, left = .array leftArray ∧ right = .array rightArray ∧
      leftArray.address < heap.arrays.size ∧ rightArray.address < heap.arrays.size := by
  have present (reference : ArrayRef) (items : (heap.array reference).toList ≠ []) :
      reference.address < heap.arrays.size := by
    refine Nat.lt_of_not_le fun absent => items ?_
    simp [array, Array.getElem?_eq_none absent]
  cases left <;> cases right <;> simp only [equalWithin] at undecided <;> try cases undecided
  next leftArray rightArray =>
    split at undecided
    · cases undecided
    · split at undecided
      · next lengths =>
          have items : (heap.array leftArray).toList ≠ [] := by
            intro empty
            rw [empty] at undecided
            cases undecided
          have otherItems : (heap.array rightArray).toList ≠ [] := by
            intro empty
            rw [empty] at lengths
            exact items (List.length_eq_zero_iff.mp lengths)
          exact ⟨_, _, rfl, rfl, present _ items, present _ otherItems⟩
      · cases undecided

/-- Looking one level deeper decides nothing more. -/
def Settled (heap : Heap) (depth : Nat) : Prop :=
  ∀ left right, heap.equalWithin (depth + 1) left right = heap.equalWithin depth left right

theorem Settled.succ {depth : Nat} (settled : heap.Settled depth) : heap.Settled (depth + 1) := by
  have same : heap.equalWithin (depth + 1) = heap.equalWithin depth :=
    funext fun left => funext fun right => settled left right
  intro left right
  cases left <;> cases right <;> simp only [equalWithin, same]

theorem Settled.mono {depth deeper : Nat} (settled : heap.Settled depth) (deep : depth ≤ deeper) :
    heap.Settled deeper := by
  induction deep with
  | refl => exact settled
  | step _ ih => exact ih.succ

theorem Settled.equalWithin {depth deeper : Nat} (settled : heap.Settled depth)
    (deep : depth ≤ deeper) (left right : Value) :
    heap.equalWithin deeper left right = heap.equalWithin depth left right := by
  induction deep with
  | refl => rfl
  | step deep ih => exact (settled.mono deep left right).trans ih

/-- The pairs of arrays that are not decided at a depth. -/
def undecided (heap : Heap) (depth : Nat) : Finset (Nat × Nat) :=
  (Finset.range heap.arrays.size ×ˢ Finset.range heap.arrays.size).filter fun pair =>
    heap.equalWithin depth (.array ⟨pair.1⟩) (.array ⟨pair.2⟩) = none

/-- If a deeper look decides something, fewer pairs are left. -/
theorem undecided_ssubset {depth : Nat} (unsettled : ¬heap.Settled (depth + 1)) :
    heap.undecided (depth + 2) ⊂ heap.undecided (depth + 1) := by
  obtain ⟨left, right, changes⟩ : ∃ left right,
      heap.equalWithin (depth + 2) left right ≠ heap.equalWithin (depth + 1) left right := by
    simpa [Settled] using unsettled
  have pending : heap.equalWithin (depth + 1) left right = none := by
    cases found : heap.equalWithin (depth + 1) left right with
    | none => rfl
    | some answer => exact (changes ((equalWithin_succ found).trans found.symm)).elim
  obtain ⟨leftArray, rightArray, rfl, rfl, leftPresent, rightPresent⟩ := arrays_of_undecided pending
  refine Finset.ssubset_iff_subset_ne.mpr ⟨?_, ?_⟩
  · intro pair member
    obtain ⟨inside, later⟩ := Finset.mem_filter.mp member
    refine Finset.mem_filter.mpr ⟨inside, ?_⟩
    cases found : heap.equalWithin (depth + 1) (.array ⟨pair.1⟩) (.array ⟨pair.2⟩) with
    | none => rfl
    | some answer =>
        rw [equalWithin_succ found] at later
        cases later
  · intro same
    have member : (leftArray.address, rightArray.address) ∈ heap.undecided (depth + 1) :=
      Finset.mem_filter.mpr ⟨by simp [leftPresent, rightPresent], pending⟩
    rw [← same] at member
    exact changes ((Finset.mem_filter.mp member).2.trans pending.symm)

/-- Every level that decides something leaves one pair less. -/
theorem settled_or_card (heap : Heap) (depth : Nat) :
    heap.Settled (depth + 1) ∨
      (heap.undecided (depth + 2)).card + (depth + 1) ≤ heap.arrays.size * heap.arrays.size := by
  by_cases settled : heap.Settled (depth + 1)
  · exact .inl settled
  · have fewer := Finset.card_lt_card (undecided_ssubset settled)
    refine .inr ?_
    induction depth with
    | zero =>
        have most : (heap.undecided (0 + 1)).card ≤ heap.arrays.size * heap.arrays.size := by
          refine (Finset.card_filter_le _ _).trans ?_
          simp
        exact Nat.le_trans fewer most
    | succ depth ih =>
        have unsettled : ¬heap.Settled (depth + 1) := fun early => settled early.succ
        have earlier := ih unsettled (Finset.card_lt_card (undecided_ssubset unsettled))
        calc (heap.undecided (depth + 1 + 2)).card + (depth + 1 + 1)
            = (heap.undecided (depth + 1 + 2)).card + 1 + (depth + 1) := by omega
          _ ≤ (heap.undecided (depth + 2)).card + (depth + 1) := Nat.add_le_add_right fewer _
          _ ≤ heap.arrays.size * heap.arrays.size := earlier

/-- There are no more levels that decide something than there are pairs of arrays. -/
theorem settled_at_pairs (heap : Heap) :
    heap.Settled (heap.arrays.size * heap.arrays.size + 1) := by
  rcases settled_or_card heap (heap.arrays.size * heap.arrays.size) with settled | bounded
  · exact settled
  · omega

theorem pairs_le_comparisonBound (heap : Heap) :
    heap.arrays.size * heap.arrays.size + 1 ≤ heap.comparisonBound := by
  unfold comparisonBound
  rw [Nat.add_mul, Nat.mul_add]
  omega

theorem settled_comparisonBound (heap : Heap) : heap.Settled heap.comparisonBound :=
  (settled_at_pairs heap).mono (pairs_le_comparisonBound heap)

/-- A comparison that comes to an end at any depth does so within the bound. -/
theorem equal?_of_equalWithin {depth : Nat} {left right : Value} {answer : Bool}
    (decided : heap.equalWithin depth left right = some answer) :
    heap.equal? left right = some answer := by
  rcases Nat.le_total depth heap.comparisonBound with shallow | deep
  · exact equalWithin_mono shallow decided
  · exact ((settled_comparisonBound heap).equalWithin deep left right).symm.trans decided

/-- The answer is the one that some depth gives. -/
theorem equal?_eq_some_iff {left right : Value} {answer : Bool} :
    heap.equal? left right = some answer ↔
      ∃ depth, heap.equalWithin depth left right = some answer := by
  constructor
  · intro decided
    exact ⟨heap.comparisonBound, decided⟩
  · intro decided
    obtain ⟨depth, decided⟩ := decided
    exact equal?_of_equalWithin decided

/-- A comparison without an answer has none at any depth. -/
theorem equal?_eq_none_iff {left right : Value} :
    heap.equal? left right = none ↔ ∀ depth, heap.equalWithin depth left right = none := by
  constructor
  · intro endless depth
    cases decided : heap.equalWithin depth left right with
    | none => rfl
    | some answer =>
        rw [equal?_of_equalWithin decided] at endless
        cases endless
  · intro endless
    exact endless _

/-!
## Searching among items
-/

/-- In front of every item that is equal stands one whose comparison goes on for ever. -/
def Unanswered (heap : Heap) (sought : Value) (items : List Value) : Prop :=
  ∃ before item after, items = before ++ item :: after ∧
    (∀ held ∈ before, heap.equal? held sought = some false) ∧ heap.equal? item sought = none

variable {sought : Value} {items : List Value}

/-- The search has no answer exactly if it comes to a comparison that goes on for ever. -/
theorem holdsEqual_eq_none_iff :
    heap.holdsEqual sought items = none ↔ heap.Unanswered sought items := by
  constructor
  · intro endless
    induction items with
    | nil => cases endless
    | cons held rest ih =>
        simp only [holdsEqual] at endless
        cases found : heap.equal? held sought with
        | none => exact ⟨[], held, rest, rfl, List.forall_mem_nil _, found⟩
        | some answer =>
            rw [found] at endless
            cases answer with
            | true => cases endless
            | false =>
                obtain ⟨before, item, after, rfl, differ, stuck⟩ := ih endless
                exact ⟨held :: before, item, after, rfl, List.forall_mem_cons.mpr ⟨found, differ⟩,
                  stuck⟩
  · rintro ⟨before, item, after, rfl, differ, stuck⟩
    induction before with
    | nil => simp only [List.nil_append, holdsEqual, stuck]
    | cons held before ih =>
        obtain ⟨first, others⟩ := List.forall_mem_cons.mp differ
        simp only [List.cons_append, holdsEqual, first, ih others]

/-- If the search has an answer, then this tells whether an item is equal. -/
theorem holdsEqual_eq_true_iff {answer : Bool} (found : heap.holdsEqual sought items = some answer) :
    answer = true ↔ ∃ item ∈ items, heap.equal? item sought = some true := by
  induction items with
  | nil =>
      cases found
      simp
  | cons held rest ih =>
      simp only [holdsEqual] at found
      simp only [List.exists_mem_cons_iff]
      cases first : heap.equal? held sought with
      | none =>
          rw [first] at found
          cases found
      | some same =>
          rw [first] at found
          cases same with
          | true =>
              cases found
              simp
          | false => simpa using ih found

/-- What is asked of an array is answered by what its items are, or not at all. -/
theorem contains_array (heap : Heap) (reference : ArrayRef) (sought : Value) :
    (heap.contains (.array reference) sought = none ∧
      heap.Unanswered sought (heap.array reference).toList) ∨
    ∃ answer, heap.contains (.array reference) sought = some (.ok answer) ∧
      ¬heap.Unanswered sought (heap.array reference).toList ∧
      (answer = true ↔ ∃ item ∈ (heap.array reference).toList,
        heap.equal? item sought = some true) := by
  simp only [contains]
  cases found : heap.holdsEqual sought (heap.array reference).toList with
  | none => exact .inl ⟨rfl, holdsEqual_eq_none_iff.mp found⟩
  | some answer =>
      refine .inr ⟨answer, rfl, fun unanswered => ?_, holdsEqual_eq_true_iff found⟩
      rw [holdsEqual_eq_none_iff.mpr unanswered] at found
      cases found

end ScriptEngine.Heap
