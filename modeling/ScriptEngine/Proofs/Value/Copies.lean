import ScriptEngine.Proofs.Machine.Observed
import ScriptEngine.Proofs.Value.Among

/-!
# Copies of arrays

An array is copied item by item. The copy is a new array, so assigning to an element of
the copy itself never shows in the original, and neither the other way round. But the
copy is not a deep one: arrays among the items stay shared, and an assignment to an
element of one of those shows on both sides (`Session.nested_arrays_stay_shared`).
An array without arrays among its items shares nothing with its copy. Then no assignment
to an element at any depth shows on the other side, as long as none of the values stored
brings arrays of the other side along (`Heap.copies_apart`).

Reading and writing go through arrays only here; records and functions among the items
are references and stay shared in any case.
-/

set_option autoImplicit false

namespace ScriptEngine

namespace Heap

/-- What is read at a row of indices, through arrays only. -/
def readAt (heap : Heap) : Value → List Value → Except RuntimeCause Value
  | value, [] => .ok value
  | .array reference, index :: rest =>
      match heap.element (.array reference) index with
      | .ok item => heap.readAt item rest
      | .error cause => .error cause
  | value, _ :: _ => .error (.nonIndexable value)

/-- The arrays that are found in a value, through arrays only: the value itself, its
items, their items, and so on. -/
inductive Holds (heap : Heap) (value : Value) : ArrayRef → Prop where
  | root {reference : ArrayRef} (same : value = .array reference) : Holds heap value reference
  | item {reference inner : ArrayRef} (held : Holds heap value reference)
      (member : .array inner ∈ heap.array reference) : Holds heap value inner

/-- No item of an array is an array that is not there. -/
def ArraysPresent (heap : Heap) : Prop :=
  ∀ reference inner, .array inner ∈ heap.array reference → inner.address < heap.arrays.size

/-- An assignment of a value to an element of the array, by any operator. -/
def Assigns (reference : ArrayRef) (value : Value) (before after : Heap) : Prop :=
  ∃ (context next : Context) (index : Value) (operator : AssignOperator) (span : Span),
    context.deliver before (.assignElement (.array reference) index operator span) value =
      .done next after

/-- An assignment to an element that is found through `mine`, at any depth. No array
among the items of the assigned value holds an array of `other`. -/
def AssignsThrough (mine other : Value) (before after : Heap) : Prop :=
  ∃ path reference value, before.readAt mine path = .ok (.array reference) ∧
    (∀ stored inner shared, value = .array stored → .array inner ∈ before.array stored →
      before.Holds (.array inner) shared → ¬before.Holds other shared) ∧
    Assigns reference value before after

/-- Any number of assignments to elements of one array. -/
def AssignedTo (reference : ArrayRef) : Heap → Heap → Prop :=
  Relation.ReflTransGen fun before after => ∃ value, Assigns reference value before after

/-- Any number of assignments through one of two values. -/
def AssignedThrough (mine other : Value) : Heap → Heap → Prop :=
  Relation.ReflTransGen (AssignsThrough mine other)

/-- Any number of assignments, through either of two values. -/
def AssignedEither (left right : Value) : Heap → Heap → Prop :=
  Relation.ReflTransGen fun before after =>
    AssignsThrough left right before after ∨ AssignsThrough right left before after

/-- No array is found in both values. -/
structure Apart (heap : Heap) (left right : Value) : Prop where
  present : heap.ArraysPresent
  leftPresent : ∀ reference, left = .array reference → reference.address < heap.arrays.size
  rightPresent : ∀ reference, right = .array reference → reference.address < heap.arrays.size
  disjoint : ∀ reference, heap.Holds left reference → ¬heap.Holds right reference

variable {heap before after : Heap} {value left right : Value} {reference : ArrayRef}

theorem Apart.symm (apart : heap.Apart left right) : heap.Apart right left :=
  ⟨apart.present, apart.rightPresent, apart.leftPresent,
    fun reference held other => apart.disjoint reference other held⟩

/-!
## What is found in a value
-/

theorem element_mem {index item : Value} (found : heap.element (.array reference) index = .ok item)
    {inner : ArrayRef} (same : item = .array inner) : .array inner ∈ heap.array reference := by
  simp only [element] at found
  split at found
  · next position _ =>
      cases held : (heap.array reference)[position]? with
      | none =>
          rw [held] at found
          subst same
          cases found
      | some value =>
          rw [held] at found
          cases found
          exact same ▸ Array.mem_of_getElem? held
  · cases found

theorem Holds.present (held : heap.Holds value reference) (arrays : heap.ArraysPresent)
    (root : ∀ reference, value = .array reference → reference.address < heap.arrays.size) :
    reference.address < heap.arrays.size := by
  cases held with
  | root same => exact root _ same
  | item _ member => exact arrays _ _ member

theorem Holds.of_element {index item : Value} {inner : ArrayRef}
    (found : heap.element (.array reference) index = .ok item) (held : heap.Holds item inner) :
    heap.Holds (.array reference) inner := by
  induction held with
  | root same => exact .item (.root rfl) (element_mem found same)
  | item _ member ih => exact .item ih member

theorem holds_of_readAt {path : List Value}
    (read : heap.readAt value path = .ok (.array reference)) :
    heap.Holds value reference := by
  induction path generalizing value with
  | nil =>
      cases read
      exact .root rfl
  | cons index rest ih =>
      cases value with
      | array outer =>
          simp only [readAt] at read
          split at read
          · next item found => exact .of_element found (ih read)
          · cases read
      | _ => cases read

/-- Only the arrays that are found in a value decide what is found in it, and what is
read there. -/
theorem holds_of_same (same : ∀ reference, before.Holds value reference →
    after.array reference = before.array reference) (held : after.Holds value reference) :
    before.Holds value reference := by
  induction held with
  | root root => exact .root root
  | item _ member ih => exact .item ih (same _ ih ▸ member)

theorem readAt_of_same (same : ∀ reference, before.Holds value reference →
    after.array reference = before.array reference) (path : List Value) :
    after.readAt value path = before.readAt value path := by
  induction path generalizing value with
  | nil => rfl
  | cons index rest ih =>
      cases value with
      | array reference =>
          have element : after.element (.array reference) index =
              before.element (.array reference) index := by
            simp only [Heap.element, same reference (.root rfl)]
          simp only [readAt, element]
          split
          · next item found =>
              exact ih fun inner held => same inner (.of_element found held)
          · rfl
      | _ => rfl

/-!
## What an assignment changes
-/

/-- The items of a new array come from the assigned value, and from what is found in the
array that is written to. -/
def Origin (reference : ArrayRef) (value : Value) (before : Heap) (items : Array Value) : Prop :=
  ∀ inner, .array inner ∈ items →
    (∃ assigned, value = .array assigned ∧ .array inner ∈ before.array assigned) ∨
      ∃ held, .array held ∈ before.array reference ∧ .array inner ∈ before.array held

/-- What an assignment makes of the heap: it stores something that is no array, or a new
array. -/
inductive Stores (reference : ArrayRef) (value : Value) (before : Heap) : Heap → Prop where
  | plain {stored : Value} (position : Nat) (plain : ∀ inner, stored ≠ .array inner) :
      Stores reference value before (before.setItem reference position stored)
  | array {items : Array Value} (position : Nat) (origin : Origin reference value before items) :
      Stores reference value before
        ((before.newArray items).2.setItem reference position (.array (before.newArray items).1))

theorem combine_origin {operator : AssignOperator} {index stored : Value} {grown : Heap}
    (combined : operator.combine before (fun _ => before.element (.array reference) index) value =
      .ok (stored, grown)) :
    (grown = before ∧ ∀ inner, stored ≠ .array inner) ∨
      ∃ items, Origin reference value before items ∧ stored = .array (before.newArray items).1 ∧
        grown = (before.newArray items).2 := by
  cases operator with
  | set =>
      cases value with
      | array assigned =>
          cases combined
          exact .inr ⟨_, fun inner member => .inl ⟨assigned, rfl, member⟩, rfl, rfl⟩
      | none | number | text | bool | record | function =>
          cases combined
          exact .inl ⟨rfl, by simp⟩
  | add =>
      simp only [AssignOperator.combine] at combined
      split at combined
      · next held found =>
          unfold add at combined
          split at combined
          · cases combined
            exact .inl ⟨rfl, by simp⟩
          · cases combined
            exact .inl ⟨rfl, by simp⟩
          · next left right =>
              cases combined
              refine .inr ⟨_, fun inner member => ?_, rfl, rfl⟩
              rcases Array.mem_append.mp member with old | new
              · exact .inr ⟨left, element_mem found rfl, old⟩
              · exact .inl ⟨right, rfl, new⟩
          · cases combined
      · cases combined
  | subtract =>
      simp only [AssignOperator.combine] at combined
      split at combined
      · next held _ =>
          cases difference : held.subtract value with
          | error cause =>
              rw [difference] at combined
              cases combined
          | ok result =>
              rw [difference] at combined
              cases combined
              have plain : stored.Plain := Value.plain_arithmetic difference
              refine .inl ⟨rfl, ?_⟩
              rintro inner rfl
              exact plain
      · cases combined

theorem Assigns.stores (assigns : Assigns reference value before after) :
    Stores reference value before after := by
  obtain ⟨context, next, index, operator, span, delivered⟩ := assigns
  simp only [Context.deliver] at delivered
  split at delivered
  · next stored grown combined =>
      split at delivered
      · next last written =>
          cases delivered
          simp only [setElement] at written
          split at written
          · next position _ =>
              cases written
              rcases combine_origin combined with ⟨rfl, plain⟩ | ⟨items, origin, rfl, rfl⟩
              · exact .plain position plain
              · exact .array position origin
          · cases written
      · cases delivered
  · cases delivered

namespace Stores

variable (stores : Stores reference value before after)

include stores

theorem size : before.arrays.size ≤ after.arrays.size := by
  cases stores with
  | plain => simp [setItem]
  | array => simp [setItem, newArray]

/-- No other array that was there is written to. -/
theorem array_of_ne {other : ArrayRef} (different : other ≠ reference)
    (present : other.address < before.arrays.size) : after.array other = before.array other := by
  cases stores with
  | plain => rw [array_setItem, if_neg different]
  | array =>
      rw [array_setItem, if_neg different]
      exact before.array_newArray_of_lt _ present

/-- Where the arrays among the items of an array come from afterwards. -/
theorem origin {outer inner : ArrayRef} (member : .array inner ∈ after.array outer) :
    .array inner ∈ before.array outer ∨
      inner.address = before.arrays.size ∧ before.arrays.size < after.arrays.size ∨
      (∃ assigned, value = .array assigned ∧ .array inner ∈ before.array assigned) ∨
      ∃ held, .array held ∈ before.array reference ∧ .array inner ∈ before.array held := by
  cases stores with
  | plain position plain =>
      rw [array_setItem] at member
      split at member
      · rcases Array.mem_or_eq_of_mem_setIfInBounds member with old | same
        · exact .inl old
        · exact absurd same.symm (plain inner)
      · exact .inl member
  | @array items position origin =>
      have unset (member : .array inner ∈ (before.newArray items).2.array outer) :
          .array inner ∈ items ∨ .array inner ∈ before.array outer := by
        rcases before.array_newArray_cases items outer with same | same
        · exact .inl (same ▸ member)
        · exact .inr (same ▸ member)
      have stored : .array inner ∈ items ∨ .array inner ∈ before.array outer ∨
          inner = (before.newArray items).1 := by
        rw [array_setItem] at member
        split at member
        · rcases Array.mem_or_eq_of_mem_setIfInBounds member with old | new
          · exact (unset old).imp_right .inl
          · exact .inr (.inr (Value.array.inj new))
        · exact (unset member).imp_right .inl
      rcases stored with new | old | rfl
      · exact .inr (.inr (origin inner new))
      · exact .inl old
      · exact .inr (.inl ⟨rfl, by simp [setItem, newArray]⟩)

theorem arraysPresent (arrays : before.ArraysPresent) : after.ArraysPresent := by
  intro outer inner member
  rcases stores.origin member with old | ⟨fresh, grown⟩ | ⟨assigned, _, inside⟩ | ⟨held, _, inside⟩
  · exact Nat.lt_of_lt_of_le (arrays _ _ old) stores.size
  · rwa [fresh]
  · exact Nat.lt_of_lt_of_le (arrays _ _ inside) stores.size
  · exact Nat.lt_of_lt_of_le (arrays _ _ inside) stores.size

end Stores

theorem present_of_mem {item : Value} (member : item ∈ heap.array reference) :
    reference.address < heap.arrays.size := by
  refine Nat.lt_of_not_le fun absent => ?_
  rw [array, Array.getElem?_eq_none absent] at member
  exact Array.not_mem_empty item member

/-- An assignment brings no more to a value than a new array and what is found in the
items of the assigned value. -/
theorem Stores.holds (stores : Stores reference value before after)
    (through : before.Holds left reference) {found : ArrayRef} (held : after.Holds left found) :
    before.Holds left found ∨ found.address = before.arrays.size ∨
      ∃ assigned inner, value = .array assigned ∧ .array inner ∈ before.array assigned ∧
        before.Holds (.array inner) found := by
  induction held with
  | root same => exact .inl (.root same)
  | item _ member ih =>
      rcases stores.origin member with
        old | ⟨fresh, _⟩ | ⟨assigned, same, inside⟩ | ⟨outer, first, second⟩
      · rcases ih with held | fresh | ⟨assigned, inner, same, first, held⟩
        · exact .inl (.item held old)
        · exact absurd (present_of_mem old) (by omega)
        · exact .inr (.inr ⟨assigned, inner, same, first, .item held old⟩)
      · exact .inr (.inl fresh)
      · exact .inr (.inr ⟨assigned, _, same, inside, .root rfl⟩)
      · exact .inl (.item (.item through first) second)

/-!
## Copies
-/

/-- An assignment through one of two values that share nothing is not seen in the other
one, and they still share nothing. -/
theorem Apart.assign (apart : before.Apart left right)
    (assigns : AssignsThrough left right before after) :
    after.Apart left right ∧ ∀ path, after.readAt right path = before.readAt right path := by
  obtain ⟨path, reference, value, read, unshared, assigns⟩ := assigns
  have stores := assigns.stores
  have through := holds_of_readAt read
  have present {found : ArrayRef} (held : before.Holds right found) :=
    held.present apart.present apart.rightPresent
  have same (found : ArrayRef) (held : before.Holds right found) :
      after.array found = before.array found :=
    stores.array_of_ne (by rintro rfl; exact apart.disjoint _ through held) (present held)
  have grown := stores.size
  refine ⟨⟨stores.arraysPresent apart.present, ?_, ?_, ?_⟩, readAt_of_same same⟩
  · exact fun root isRoot => Nat.lt_of_lt_of_le (apart.leftPresent root isRoot) grown
  · exact fun root isRoot => Nat.lt_of_lt_of_le (apart.rightPresent root isRoot) grown
  · intro found heldLeft heldRight
    have heldBefore := holds_of_same same heldRight
    rcases stores.holds through heldLeft with held | fresh | ⟨assigned, inner, isArray, item, held⟩
    · exact apart.disjoint found held heldBefore
    · exact absurd (present heldBefore) (by omega)
    · exact unshared assigned inner found isArray item held heldBefore

theorem Apart.assigned (apart : before.Apart left right)
    (assigned : AssignedThrough left right before after) (path : List Value) :
    after.readAt right path = before.readAt right path := by
  have kept : after.Apart left right ∧
      ∀ path, after.readAt right path = before.readAt right path := by
    induction assigned with
    | refl => exact ⟨apart, fun _ => rfl⟩
    | tail _ last ih =>
        obtain ⟨apart, unchanged⟩ := ih
        obtain ⟨apart, again⟩ := apart.assign last
        exact ⟨apart, fun path => (again path).trans (unchanged path)⟩
  exact kept.2 path

theorem Apart.assignedEither (apart : before.Apart left right)
    (assigned : AssignedEither left right before after) : after.Apart left right := by
  induction assigned with
  | refl => exact apart
  | tail _ last ih =>
      rcases last with last | last
      · exact (ih.assign last).1
      · exact (ih.symm.assign last).1.symm

/-- Assignments to elements of one array are not seen in a value in which it is not found. -/
theorem readAt_of_assignedTo (arrays : before.ArraysPresent)
    (root : ∀ reference, value = .array reference → reference.address < before.arrays.size)
    (outside : ¬before.Holds value reference) (assigned : AssignedTo reference before after)
    (path : List Value) : after.readAt value path = before.readAt value path := by
  have same : before.arrays.size ≤ after.arrays.size ∧
      ∀ found, before.Holds value found → after.array found = before.array found := by
    induction assigned with
    | refl => exact ⟨Nat.le_refl _, fun _ _ => rfl⟩
    | tail _ assigns ih =>
        obtain ⟨grown, same⟩ := ih
        obtain ⟨_, assigns⟩ := assigns
        have stores := assigns.stores
        refine ⟨Nat.le_trans grown stores.size, fun found held => ?_⟩
        have present := Nat.lt_of_lt_of_le (held.present arrays root) grown
        have other : found ≠ reference := by
          rintro rfl
          exact outside held
        exact (stores.array_of_ne other present).trans (same found held)
  exact readAt_of_same same.2 path

section Duplicate

variable {original : ArrayRef} (arrays : heap.ArraysPresent)
  (present : original.address < heap.arrays.size)

include arrays

theorem arraysPresent_duplicate (value : Value) : (heap.duplicate value).2.ArraysPresent := by
  cases value with
  | array reference =>
      intro outer inner member
      have size : (heap.duplicate (.array reference)).2.arrays.size = heap.arrays.size + 1 := by
        simp [duplicate, newArray]
      rw [size]
      rcases heap.array_newArray_cases (heap.array reference) outer with same | same
      · exact Nat.lt_succ_of_lt (arrays reference inner (same ▸ member))
      · exact Nat.lt_succ_of_lt (arrays outer inner (same ▸ member))
  | none | number | text | bool | record | function => exact arrays

/-- What is found in a copy, apart from the copy itself, is found in the items of the
original. -/
theorem holds_copy {found : ArrayRef} (held : (heap.duplicate (.array original)).2.Holds
      (heap.duplicate (.array original)).1 found) :
    found.address = heap.arrays.size ∨
      ∃ inner, .array inner ∈ heap.array original ∧ heap.Holds (.array inner) found := by
  induction held with
  | root same =>
      cases same
      exact .inl rfl
  | @item outer inner _ member ih =>
      rcases ih with fresh | ⟨first, item, held⟩
      · have copy : (heap.duplicate (.array original)).2.array outer = heap.array original := by
          obtain ⟨address⟩ := outer
          cases fresh
          exact heap.array_newArray (heap.array original)
        exact .inr ⟨inner, copy ▸ member, .root rfl⟩
      · have there : outer.address < heap.arrays.size :=
          held.present arrays (by rintro _ ⟨⟩; exact arrays _ _ item)
        have same : (heap.duplicate (.array original)).2.array outer = heap.array outer :=
          heap.array_newArray_of_lt _ there
        exact .inr ⟨first, item, .item held (same ▸ member)⟩

include present

/-- What is found in the original is not new. -/
theorem holds_original {found : ArrayRef}
    (held : (heap.duplicate (.array original)).2.Holds (.array original) found) :
    heap.Holds (.array original) found ∧ found.address < heap.arrays.size := by
  have root : ∀ reference, Value.array original = .array reference →
      reference.address < heap.arrays.size := by
    rintro _ ⟨⟩
    exact present
  have held := holds_of_same (fun reference held =>
    heap.array_newArray_of_lt (heap.array original) (held.present arrays root)) held
  exact ⟨held, held.present arrays root⟩

/-- An array without arrays among its items shares nothing with its copy. -/
theorem apart_duplicate (plain : ∀ inner, .array inner ∉ heap.array original) :
    (heap.duplicate (.array original)).2.Apart (heap.duplicate (.array original)).1
      (.array original) where
  present := arraysPresent_duplicate arrays _
  leftPresent := by
    rintro _ ⟨⟩
    simp [duplicate, newArray]
  rightPresent := by
    rintro _ ⟨⟩
    have grown : heap.arrays.size < (heap.duplicate (.array original)).2.arrays.size := by
      simp [duplicate, newArray]
    exact Nat.lt_trans present grown
  disjoint found held other := by
    rcases holds_copy arrays held with fresh | ⟨inner, item, _⟩
    · exact absurd (holds_original arrays present other).2 (by omega)
    · exact plain inner item

end Duplicate

/-- Copying an array keeps what is assigned to elements of the copy itself out of the
original, whatever the array holds, and the other way round unless the original is found
among its own items. If no items of the original are arrays then the same is true of
assignments through either of the two at any depth. -/
theorem copies_apart {original : ArrayRef} {copy : Value} {grown : Heap}
    (arrays : heap.ArraysPresent) (present : original.address < heap.arrays.size)
    (copied : heap.duplicate (.array original) = (copy, grown)) :
    (∀ reference after, copy = .array reference → AssignedTo reference grown after →
      ∀ path, after.readAt (.array original) path = grown.readAt (.array original) path) ∧
    ((∀ inner, .array inner ∈ heap.array original → ¬heap.Holds (.array inner) original) →
      ∀ after, AssignedTo original grown after →
        ∀ path, after.readAt copy path = grown.readAt copy path) ∧
    ((∀ inner, .array inner ∉ heap.array original) →
      ∀ middle, AssignedEither copy (.array original) grown middle →
        (∀ after, AssignedThrough copy (.array original) middle after →
          ∀ path, after.readAt (.array original) path = middle.readAt (.array original) path) ∧
        ∀ after, AssignedThrough (.array original) copy middle after →
          ∀ path, after.readAt copy path = middle.readAt copy path) := by
  obtain ⟨rfl, rfl⟩ := Prod.mk.inj copied
  have grownArrays := arraysPresent_duplicate arrays (.array original)
  have grown : heap.arrays.size < (heap.duplicate (.array original)).2.arrays.size := by
    simp [duplicate, newArray]
  refine ⟨?_, ?_, ?_⟩
  · intro reference after same assigned
    have root : ∀ reference, Value.array original = .array reference →
        reference.address < (heap.duplicate (.array original)).2.arrays.size := by
      rintro _ ⟨⟩
      exact Nat.lt_trans present grown
    refine readAt_of_assignedTo grownArrays root (fun held => ?_) assigned
    cases same
    exact Nat.lt_irrefl _ (holds_original arrays present held).2
  · intro acyclic after assigned
    have root : ∀ reference, (heap.duplicate (.array original)).1 = .array reference →
        reference.address < (heap.duplicate (.array original)).2.arrays.size := by
      rintro _ ⟨⟩
      exact grown
    refine readAt_of_assignedTo grownArrays root (fun held => ?_) assigned
    rcases holds_copy arrays held with fresh | ⟨inner, item, inside⟩
    · omega
    · exact acyclic inner item inside
  · intro plain middle assigned
    have apart := (apart_duplicate arrays present plain).assignedEither assigned
    exact ⟨fun _ => apart.assigned, fun _ => apart.symm.assigned⟩

/-- An item of the copy is replaced, and the original keeps its own. -/
theorem copies_apart_after_assignment :
    ∃ heap grown after : Heap, ∃ original copy : ArrayRef, heap.ArraysPresent ∧
      original.address < heap.arrays.size ∧
      (∀ inner, .array inner ∉ heap.array original) ∧
      heap.duplicate (.array original) = (.array copy, grown) ∧
      AssignedThrough (.array copy) (.array original) grown after ∧
      after.readAt (.array copy) [.number 0] = .ok (.text "x") ∧
      after.readAt (.array original) [.number 0] = .ok (.text "a") := by
  have position : indexPosition (.number 0) 1 = .ok 0 := by
    have whole : Binary64.integer? 0 = some 0 := by decide +kernel
    simp [indexPosition, whole]
  have arrays : ArraysPresent ⟨#[#[.text "a"]], #[], #[]⟩ := by
    intro reference inner member
    obtain ⟨address⟩ := reference
    cases address <;> simp [Heap.array] at member
  have plain : ∀ inner, .array inner ∉ Heap.array ⟨#[#[.text "a"]], #[], #[]⟩ ⟨0⟩ := by
    simp [Heap.array]
  have assigns : AssignsThrough (.array ⟨1⟩) (.array ⟨0⟩)
      ⟨#[#[.text "a"], #[.text "a"]], #[], #[]⟩ ⟨#[#[.text "a"], #[.text "x"]], #[], #[]⟩ := by
    refine ⟨[], ⟨1⟩, .text "x", rfl, by simp, Context.base .empty ⟨0⟩,
      (Context.base .empty ⟨0⟩).proceed, .number 0, .set, ⟨0, 0⟩, ?_⟩
    simp [Context.deliver, AssignOperator.combine, duplicate, setElement, setItem, Heap.array,
      position]
  have unchanged := ((copies_apart arrays (by decide) rfl).2.2 plain _ .refl).1 _
    (.single assigns) [.number 0]
  refine ⟨_, _, _, ⟨0⟩, ⟨1⟩, arrays, by decide, plain, rfl, .single assigns, ?_,
    unchanged.trans ?_⟩
  all_goals simp [readAt, element, Heap.array, position]

end Heap

namespace Session

/-- An array among the items of a copied array is not copied along: an assignment to an
element of it through the copy is read through the original. -/
theorem nested_arrays_stay_shared :
    ∃ script started after,
      Script.ofSource "a = [[1]]\nb = a\nprint a\nb[0][0] = 9\nprint a\n" = .ok script ∧
      (Session.new none).run script = .ok started ∧
      execute 100 started = (.value (), after) ∧ after.output = "[[1]]\n[[9]]\n" := by
  have passed : ((Script.ofSource "a = [[1]]\nb = a\nprint a\nb[0][0] = 9\nprint a\n"
      ).toOption.any fun script =>
        ((Session.new none).run script).toOption.any fun started =>
          returns (execute 100 started) fun _ after => after.output == "[[1]]\n[[9]]\n") =
      true := by decide +kernel
  obtain ⟨script, started, accepted, begun, passed⟩ := eq_of_runs passed
  obtain ⟨_, after, ended, output⟩ := eq_of_returns passed
  exact ⟨script, started, after, accepted, begun, ended, eq_of_beq output⟩

end Session

end ScriptEngine
