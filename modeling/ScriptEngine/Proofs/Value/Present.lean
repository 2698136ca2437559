import ScriptEngine.Proofs.Machine.Lengths

/-!
# Arrays that are there

A heap is closed if it has all arrays that its values refer to. What is read from a closed
heap is there, and every operation on values that are there leaves the heap closed. So an
array that is made is new: nothing could refer to it before.
-/

set_option autoImplicit false

namespace ScriptEngine

/-- If the value is an array, then the heap has it. -/
def Value.Present (heap : Heap) : Value → Prop
  | .array reference => reference.address < heap.arrays.size
  | _ => True

/-- The heap has all arrays that its values refer to. Constants of scripts refer to none. -/
structure Heap.Closed (heap : Heap) : Prop where
  items : ∀ reference, ∀ value ∈ heap.array reference, value.Present heap
  members : ∀ reference name value, (heap.record reference).get? name = some value →
    value.Present heap
  scripts : ∀ reference script entry, (heap.function reference).body = .script script entry →
    script.Plain

/-- The heap is closed again, and there are at least as many arrays. -/
structure Heap.Grows (before after : Heap) : Prop where
  closed : after.Closed
  size : before.arrays.size ≤ after.arrays.size

namespace Value

variable {heap : Heap}

theorem Plain.present {value : Value} (plain : value.Plain) : value.Present heap := by
  cases value with
  | none | number | text | bool => trivial
  | array | record | function => exact plain.elim

theorem Present.mono {value : Value} (present : value.Present heap) {grown : Heap}
    (size : heap.arrays.size ≤ grown.arrays.size) : value.Present grown := by
  cases value with
  | array reference => exact Nat.lt_of_lt_of_le present size
  | none | number | text | bool | record | function => trivial

end Value

namespace Heap

theorem Grows.trans {first second third : Heap} (early : first.Grows second)
    (late : second.Grows third) : first.Grows third :=
  ⟨late.closed, Nat.le_trans early.size late.size⟩

namespace Closed

variable {heap : Heap} (closed : heap.Closed)

include closed

theorem refl : heap.Grows heap := ⟨closed, Nat.le_refl _⟩

/-!
## What is read
-/

theorem lookupWithin {name : String} {links : Nat} {reference : RecordRef} {value : Value}
    (found : heap.lookupWithin name links reference = some value) : value.Present heap := by
  induction links generalizing reference value with
  | zero =>
      unfold Heap.lookupWithin at found
      dsimp only at found
      split at found
      · next held own =>
          cases found
          exact closed.members _ _ _ own
      · cases found
  | succ links ih =>
      unfold Heap.lookupWithin at found
      dsimp only at found
      split at found
      · next held own =>
          cases found
          exact closed.members _ _ _ own
      · split at found
        · next same _ =>
            cases same
            exact ih found
        · next same _ =>
            cases same
            obtain ⟨parent, _, inherited⟩ := List.exists_of_findSome?_eq_some found
            split at inherited
            · exact ih inherited
            · cases inherited
        · cases found

theorem lookup {reference : RecordRef} {name : String} {value : Value}
    (found : heap.lookup reference name = some value) : value.Present heap :=
  closed.lookupWithin found

theorem element {object index value : Value} (found : heap.element object index = .ok value) :
    value.Present heap := by
  unfold Heap.element at found
  split at found
  · dsimp only at found
    split at found
    · next position _ =>
        cases found
        cases held : (heap.array _)[position]? with
        | none => trivial
        | some item => exact closed.items _ item (Array.mem_of_getElem? held)
    · cases found
  · dsimp only at found
    split at found <;> cases found
    trivial
  · split at found
    · next held inside =>
        cases found
        exact closed.lookup inside
    · cases found
  · cases found

theorem itemAt {source item : Value} {position : Nat}
    (found : Iteration.itemAt heap source position = some item) : item.Present heap := by
  unfold Iteration.itemAt at found
  split at found
  · exact closed.items _ item (Array.mem_of_getElem? found)
  · obtain ⟨_, _, rfl⟩ := Option.map_eq_some_iff.mp found
    trivial
  · obtain ⟨_, _, rfl⟩ := Option.map_eq_some_iff.mp found
    trivial
  · cases found

/-!
## What is written
-/

theorem newArray {items : Array Value} (present : ∀ item ∈ items, item.Present heap) :
    heap.Grows (heap.newArray items).2 ∧
      (Value.array (heap.newArray items).1).Present (heap.newArray items).2 := by
  have size : heap.arrays.size ≤ (heap.newArray items).2.arrays.size := by simp [Heap.newArray]
  refine ⟨⟨⟨?_, ?_, closed.scripts⟩, size⟩, ?_⟩
  · intro reference item member
    rcases heap.array_newArray_cases items reference with same | same <;> rw [same] at member
    · exact (present item member).mono size
    · exact (closed.items reference item member).mono size
  · exact fun reference name value found => (closed.members reference name value found).mono size
  · simp [Value.Present, Heap.newArray]

theorem setItem {reference : ArrayRef} {position : Nat} {value : Value}
    (present : value.Present heap) : heap.Grows (heap.setItem reference position value) := by
  have size := (KeepsLengths.setItem heap reference position value).size
  refine ⟨⟨?_, fun record name held found => (closed.members record name held found).mono size,
    closed.scripts⟩, size⟩
  intro read item member
  rw [heap.array_setItem] at member
  split at member
  · rcases Array.mem_or_eq_of_mem_setIfInBounds member with old | rfl
    · exact (closed.items read item old).mono size
    · exact present.mono size
  · exact (closed.items read item member).mono size

theorem modifyRecord {reference : RecordRef} {change : Record → Record}
    (changed : ∀ record : Record, (∀ name value, record.get? name = some value →
      value.Present heap) → ∀ name value, (change record).get? name = some value →
        value.Present heap) : heap.Grows (heap.modifyRecord reference change) := by
  refine ⟨⟨closed.items, fun read => ?_, closed.scripts⟩, Nat.le_refl _⟩
  rcases heap.record_modifyRecord_cases reference read change with same | same <;> rw [same]
  · exact closed.members read
  · exact changed _ (closed.members read)

theorem setMember (reference : RecordRef) (name : String) {value : Value}
    (present : value.Present heap) : heap.Grows (heap.setMember reference name value) := by
  refine closed.modifyRecord fun record members key held found => ?_
  rw [record.get?_insert] at found
  split at found
  · cases found
    exact present
  · exact members key held found

theorem eraseMember (reference : RecordRef) (name : String) :
    heap.Grows (heap.eraseMember reference name) := by
  refine closed.modifyRecord fun record members key held found => ?_
  rw [record.get?_erase] at found
  split at found
  · cases found
  · exact members key held found

theorem clearRecord (reference : RecordRef) : heap.Grows (heap.clearRecord reference) := by
  refine closed.modifyRecord fun record members key held found => ?_
  rw [Record.get?_empty] at found
  cases found

theorem newRecord : heap.Grows (heap.newRecord .empty).2 := by
  refine ⟨⟨closed.items, fun reference name value found => ?_, closed.scripts⟩, Nat.le_refl _⟩
  by_cases present : reference.address < heap.records.size
  · rw [heap.record_newRecord_of_lt .empty present] at found
    exact closed.members reference name value found
  · have nothing : (heap.newRecord .empty).2.record reference = .empty := by
      simp only [Heap.newRecord, record, Array.getElem?_push]
      split
      · rfl
      · rw [Array.getElem?_eq_none (Nat.not_lt.mp present)]
        rfl
    rw [nothing] at found
    cases found

theorem newFunction (function : Function)
    (plain : ∀ script entry, function.body = .script script entry → script.Plain) :
    heap.Grows (heap.newFunction function).2 := by
  refine ⟨⟨closed.items, closed.members, fun reference script entry body => ?_⟩, Nat.le_refl _⟩
  simp only [Heap.newFunction, Heap.function, Array.getElem?_push] at body
  split at body
  · exact plain script entry body
  · exact closed.scripts reference script entry body

theorem release (context : Context) : heap.Grows (context.release heap) := by
  unfold Context.release
  split
  · exact closed.clearRecord _
  · exact closed.refl

theorem duplicate {value : Value} (present : value.Present heap) :
    heap.Grows (heap.duplicate value).2 ∧ (heap.duplicate value).1.Present (heap.duplicate value).2 := by
  cases value with
  | array reference => exact closed.newArray (closed.items reference)
  | none | number | text | bool | record | function => exact ⟨closed.refl, trivial⟩

theorem add {grown : Heap} {left right sum : Value}
    (added : heap.add left right = .ok (sum, grown)) : heap.Grows grown ∧ sum.Present grown := by
  unfold Heap.add at added
  split at added
  · cases added
    exact ⟨closed.refl, trivial⟩
  · cases added
    exact ⟨closed.refl, trivial⟩
  · cases added
    refine closed.newArray fun item member => ?_
    rcases Array.mem_append.mp member with first | second
    · exact closed.items _ item first
    · exact closed.items _ item second
  · cases added

/-!
## Operators
-/

private theorem unchanged {answer : Except RuntimeCause Value} {grown : Heap} {value : Value}
    (plain : ∀ value, answer = .ok value → value.Plain)
    (mapped : answer.map (fun value => (value, heap)) = .ok (value, grown)) :
    heap.Grows grown ∧ value.Present grown := by
  cases answer with
  | error cause => cases mapped
  | ok result =>
      cases mapped
      exact ⟨closed.refl, (plain _ rfl).present⟩

theorem applyBinary {grown : Heap} {operator : BinaryOperator} {left right value : Value}
    (applied : heap.applyBinary operator left right = some (.ok (value, grown))) :
    heap.Grows grown ∧ value.Present grown := by
  rcases applyBinary_ok applied with added | ⟨rfl, ⟨number, rfl⟩ | ⟨truth, rfl⟩⟩
  · exact closed.add added
  · exact ⟨closed.refl, trivial⟩
  · exact ⟨closed.refl, trivial⟩

theorem combine {grown : Heap} {operator : AssignOperator}
    {current : Unit → Except RuntimeCause Value} {value stored : Value}
    (present : value.Present heap)
    (combined : operator.combine heap current value = .ok (stored, grown)) :
    heap.Grows grown ∧ stored.Present grown := by
  cases operator with
  | set =>
      have copied := closed.duplicate present
      rw [Except.ok.inj combined] at copied
      exact copied
  | add =>
      simp only [AssignOperator.combine] at combined
      split at combined
      · exact closed.add combined
      · cases combined
  | subtract =>
      simp only [AssignOperator.combine] at combined
      split at combined
      · exact closed.unchanged (fun _ => Value.plain_arithmetic) combined
      · cases combined

theorem setElement {grown : Heap} {object index value : Value} (present : value.Present heap)
    (stored : heap.setElement object index value = .ok grown) : heap.Grows grown := by
  unfold Heap.setElement at stored
  split at stored
  · split at stored <;> cases stored
    exact closed.setItem present
  · cases stored
    exact closed.setMember _ _ present
  · cases stored

theorem bindParameters (locals : RecordRef) (parameters : List String) {arguments : List Value}
    (present : ∀ argument ∈ arguments, argument.Present heap) :
    heap.Grows (heap.bindParameters locals parameters arguments) := by
  induction parameters generalizing heap arguments with
  | nil => exact closed.refl
  | cons parameter parameters ih =>
      cases arguments with
      | nil => exact closed.refl
      | cons argument arguments =>
          obtain ⟨first, rest⟩ := List.forall_mem_cons.mp present
          obtain ⟨grown, copied⟩ := closed.duplicate first
          have bound := grown.closed.setMember locals parameter copied
          exact (grown.trans bound).trans (ih bound.closed fun other member =>
            (rest other member).mono (grown.trans bound).size)

end Closed

end Heap

end ScriptEngine
