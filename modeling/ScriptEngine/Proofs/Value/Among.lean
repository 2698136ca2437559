import Mathlib
import ScriptEngine.Proofs.Grammar.Constants
import ScriptEngine.Proofs.Machine.Invariant

/-!
# Which records the values of a heap are

A set of records is closed if no value in the heap is a record outside of it. What is
read from such a heap is in the set again, and every operation on values keeps the heap
closed: a value that is a record comes from another such value. Together with the names
of the context that runs, this bounds the records that a statement can write to.
-/

set_option autoImplicit false

namespace ScriptEngine

/-- If the value is a record, then it is one of the given ones. -/
def Value.Among (records : RecordRef → Prop) : Value → Prop
  | .record reference => records reference
  | _ => True

/-- Every value in the heap that is a record is one of the given ones. -/
structure Heap.Among (records : RecordRef → Prop) (heap : Heap) : Prop where
  items : ∀ reference, ∀ value ∈ heap.array reference, value.Among records
  members : ∀ reference name value, (heap.record reference).get? name = some value →
    value.Among records
  scripts : ∀ reference script entry, (heap.function reference).body = .script script entry →
    script.Plain

/-- The records that were there are the same as before, but for those that may be
written to. -/
structure Heap.Writes (written : RecordRef → Prop) (before after : Heap) : Prop where
  size : before.records.size ≤ after.records.size
  kept : ∀ reference, reference.address < before.records.size → ¬written reference →
    after.record reference = before.record reference

variable {records written : RecordRef → Prop}

theorem Value.Plain.among {value : Value} (plain : value.Plain) : value.Among records := by
  cases value with
  | none | number | text | bool => trivial
  | array | record | function => exact plain.elim

theorem Value.Among.recordRef? {value : Value} {reference : RecordRef}
    (among : value.Among records) (same : value.recordRef? = some reference) :
    records reference := by
  cases value <;> cases same
  exact among

namespace Heap

namespace Writes

theorem refl (heap : Heap) : heap.Writes written heap :=
  ⟨Nat.le_refl _, fun _ _ _ => rfl⟩

theorem trans {first second third : Heap} (early : first.Writes written second)
    (late : second.Writes written third) : first.Writes written third where
  size := Nat.le_trans early.size late.size
  kept reference present other :=
    (late.kept reference (Nat.lt_of_lt_of_le present early.size) other).trans
      (early.kept reference present other)

theorem mono {before after : Heap} {more : RecordRef → Prop} (writes : before.Writes written after)
    (wider : ∀ reference, written reference → more reference) : before.Writes more after :=
  ⟨writes.size, fun reference present other =>
    writes.kept reference present fun inside => other (wider reference inside)⟩

/-- Records that are new do not count. -/
theorem then_new {first second third : Heap} (early : first.Writes written second)
    (late : second.Writes (fun reference => first.records.size ≤ reference.address) third) :
    first.Writes written third where
  size := Nat.le_trans early.size late.size
  kept reference present other :=
    (late.kept reference (Nat.lt_of_lt_of_le present early.size) (Nat.not_le.mpr present)).trans
      (early.kept reference present other)

theorem of_records {before after : Heap} (same : after.records = before.records) :
    before.Writes written after :=
  ⟨Nat.le_of_eq (congrArg Array.size same.symm), fun _ _ _ => by simp only [record, same]⟩

theorem modifyRecord (heap : Heap) {reference : RecordRef} (change : Record → Record)
    (allowed : written reference) : heap.Writes written (heap.modifyRecord reference change) where
  size := by simp [Heap.modifyRecord]
  kept other present unwritten := by
    have different : other.address ≠ reference.address := by
      intro same
      obtain rfl : other = reference := by
        obtain ⟨address⟩ := other
        exact congrArg RecordRef.mk same
      exact unwritten allowed
    simp [Heap.modifyRecord, record, Array.getElem?_modify, different.symm]

theorem newRecord (heap : Heap) (record : Record) :
    heap.Writes written (heap.newRecord record).2 where
  size := by simp [Heap.newRecord]
  kept _ present _ := heap.record_newRecord_of_lt record present

end Writes

/-- A change of one record is seen in no other one. -/
theorem record_modifyRecord_cases (heap : Heap) (changed read : RecordRef)
    (change : Record → Record) :
    (heap.modifyRecord changed change).record read = heap.record read ∨
      (heap.modifyRecord changed change).record read = change (heap.record read) := by
  by_cases present : changed.address < heap.records.size
  · rw [heap.record_modifyRecord changed read change present]
    split
    · exact .inr rfl
    · exact .inl rfl
  · refine .inl ?_
    unfold modifyRecord record
    rw [Array.getElem?_modify]
    split
    · next same =>
        rw [← same, Array.getElem?_eq_none (Nat.not_lt.mp present)]
        rfl
    · rfl

theorem array_newArray_cases (heap : Heap) (items : Array Value) (read : ArrayRef) :
    (heap.newArray items).2.array read = items ∨
      (heap.newArray items).2.array read = heap.array read := by
  simp only [newArray, array, Array.getElem?_push]
  split
  · exact .inl rfl
  · exact .inr rfl

/-!
## What is read
-/

namespace Among

variable {heap : Heap} (among : heap.Among records)

include among

theorem lookupWithin {name : String} {links : Nat} {reference : RecordRef} {value : Value}
    (found : heap.lookupWithin name links reference = some value) : value.Among records := by
  induction links generalizing reference value with
  | zero =>
      unfold Heap.lookupWithin at found
      dsimp only at found
      split at found
      · next held own =>
          cases found
          exact among.members _ _ _ own
      · cases found
  | succ links ih =>
      unfold Heap.lookupWithin at found
      dsimp only at found
      split at found
      · next held own =>
          cases found
          exact among.members _ _ _ own
      · split at found
        · next same _ =>
            cases same
            exact ih found
        · next same _ =>
            cases same
            obtain ⟨parent, _, inherited⟩ := List.exists_of_findSome?_eq_some found
            split at inherited
            · exact ih inherited
            · cases inherited
        · cases found

theorem lookup {reference : RecordRef} {name : String} {value : Value}
    (found : heap.lookup reference name = some value) : value.Among records :=
  among.lookupWithin found

theorem lookupChain {chain : List RecordRef} {name : String} {value : Value}
    (found : heap.lookupChain chain name = some value) : value.Among records := by
  obtain ⟨reference, _, inside⟩ := List.exists_of_findSome?_eq_some found
  exact among.lookup inside

theorem element {object index value : Value} (found : heap.element object index = .ok value) :
    value.Among records := by
  unfold Heap.element at found
  split at found
  · dsimp only at found
    split at found
    · next position _ =>
        cases found
        cases held : (heap.array _)[position]? with
        | none => trivial
        | some item => exact among.items _ item (Array.mem_of_getElem? held)
    · cases found
  · dsimp only at found
    split at found <;> cases found
    trivial
  · split at found
    · next held inside =>
        cases found
        exact among.lookup inside
    · cases found
  · cases found

theorem itemAt {source item : Value} {position : Nat}
    (found : Iteration.itemAt heap source position = some item) : item.Among records := by
  unfold Iteration.itemAt at found
  split at found
  · exact among.items _ item (Array.mem_of_getElem? found)
  · obtain ⟨_, _, rfl⟩ := Option.map_eq_some_iff.mp found
    trivial
  · obtain ⟨_, _, rfl⟩ := Option.map_eq_some_iff.mp found
    trivial
  · cases found

/-!
## What is written
-/

theorem newArray {items : Array Value} (itemsAmong : ∀ item ∈ items, item.Among records) :
    (heap.newArray items).2.Among records where
  items reference item member := by
    rcases heap.array_newArray_cases items reference with same | same <;> rw [same] at member
    · exact itemsAmong item member
    · exact among.items reference item member
  members := among.members
  scripts := among.scripts

theorem setItem {reference : ArrayRef} {position : Nat} {value : Value}
    (valueAmong : value.Among records) : (heap.setItem reference position value).Among records where
  items read item member := by
    rw [heap.array_setItem] at member
    split at member
    · rcases Array.mem_or_eq_of_mem_setIfInBounds member with old | rfl
      · exact among.items read item old
      · exact valueAmong
    · exact among.items read item member
  members := among.members
  scripts := among.scripts

theorem modifyRecord {reference : RecordRef} {change : Record → Record}
    (changed : ∀ record : Record, (∀ name value, record.get? name = some value →
      value.Among records) → ∀ name value, (change record).get? name = some value →
        value.Among records) : (heap.modifyRecord reference change).Among records where
  items := among.items
  members read := by
    rcases heap.record_modifyRecord_cases reference read change with same | same <;> rw [same]
    · exact among.members read
    · exact changed _ (among.members read)
  scripts := among.scripts

theorem setMember {reference : RecordRef} {name : String} {value : Value}
    (valueAmong : value.Among records) : (heap.setMember reference name value).Among records := by
  refine among.modifyRecord fun record members key held found => ?_
  rw [record.get?_insert] at found
  split at found
  · cases found
    exact valueAmong
  · exact members key held found

theorem eraseMember (reference : RecordRef) (name : String) :
    (heap.eraseMember reference name).Among records := by
  refine among.modifyRecord fun record members key held found => ?_
  rw [record.get?_erase] at found
  split at found
  · cases found
  · exact members key held found

theorem clearRecord (reference : RecordRef) : (heap.clearRecord reference).Among records := by
  refine among.modifyRecord fun record members key held found => ?_
  rw [Record.get?_empty] at found
  cases found

theorem newRecord : (heap.newRecord .empty).2.Among records where
  items := among.items
  members reference name value found := by
    by_cases present : reference.address < heap.records.size
    · rw [heap.record_newRecord_of_lt .empty present] at found
      exact among.members reference name value found
    · have nothing : (heap.newRecord .empty).2.record reference = .empty := by
        simp only [Heap.newRecord, record, Array.getElem?_push]
        split
        · rfl
        · rw [Array.getElem?_eq_none (Nat.not_lt.mp present)]
          rfl
      rw [nothing] at found
      cases found
  scripts := among.scripts

theorem newFunction {function : Function}
    (plain : ∀ script entry, function.body = .script script entry → script.Plain) :
    (heap.newFunction function).2.Among records where
  items := among.items
  members := among.members
  scripts reference script entry body := by
    simp only [Heap.newFunction, Heap.function, Array.getElem?_push] at body
    split at body
    · exact plain script entry body
    · exact among.scripts reference script entry body

theorem release (context : Context) : (context.release heap).Among records := by
  unfold Context.release
  split
  · exact among.clearRecord _
  · exact among

theorem duplicate {value : Value} (valueAmong : value.Among records) :
    (heap.duplicate value).1.Among records ∧ (heap.duplicate value).2.Among records := by
  cases value with
  | array reference => exact ⟨trivial, among.newArray (among.items reference)⟩
  | none | number | text | bool | function => exact ⟨trivial, among⟩
  | record reference => exact ⟨valueAmong, among⟩

theorem add {grown : Heap} {left right sum : Value}
    (added : heap.add left right = .ok (sum, grown)) :
    sum.Among records ∧ grown.Among records := by
  unfold Heap.add at added
  split at added
  · cases added
    exact ⟨trivial, among⟩
  · cases added
    exact ⟨trivial, among⟩
  · cases added
    refine ⟨trivial, among.newArray fun item member => ?_⟩
    rcases Array.mem_append.mp member with first | second
    · exact among.items _ item first
    · exact among.items _ item second
  · cases added

end Among

end Heap

/-!
## Operators
-/

theorem Value.plain_arithmetic {operation : Float → Float → Float} {left right value : Value}
    (computed : Value.arithmetic operation left right = .ok value) : value.Plain := by
  unfold Value.arithmetic at computed
  split at computed <;> cases computed
  trivial

theorem Heap.plain_applyUnary {heap : Heap} {operator : UnaryOperator} {operand value : Value}
    (applied : heap.applyUnary operator operand = .ok value) : value.Plain := by
  cases operator with
  | minus =>
      simp only [applyUnary, Value.negate] at applied
      split at applied <;> cases applied
      trivial
  | not =>
      cases applied
      trivial

namespace Heap.Among

variable {heap : Heap} (among : heap.Among records)

include among

private theorem unchanged {answer : Except RuntimeCause Value} {grown : Heap} {value : Value}
    (plain : ∀ value, answer = .ok value → value.Plain)
    (mapped : answer.map (fun value => (value, heap)) = .ok (value, grown)) :
    value.Among records ∧ grown.Among records := by
  cases answer with
  | error cause => cases mapped
  | ok result =>
      cases mapped
      exact ⟨(plain _ rfl).among, among⟩

theorem applyBinary {grown : Heap} {operator : BinaryOperator} {left right value : Value}
    (applied : heap.applyBinary operator left right = some (.ok (value, grown))) :
    value.Among records ∧ grown.Among records := by
  rcases applyBinary_ok applied with added | ⟨rfl, ⟨number, rfl⟩ | ⟨truth, rfl⟩⟩
  · exact among.add added
  · exact ⟨trivial, among⟩
  · exact ⟨trivial, among⟩

theorem combine {grown : Heap} {operator : AssignOperator}
    {current : Unit → Except RuntimeCause Value} {value stored : Value}
    (valueAmong : value.Among records)
    (combined : operator.combine heap current value = .ok (stored, grown)) :
    stored.Among records ∧ grown.Among records := by
  cases operator with
  | set =>
      have copied := among.duplicate valueAmong
      rw [Except.ok.inj combined] at copied
      exact copied
  | add =>
      simp only [AssignOperator.combine] at combined
      split at combined
      · exact among.add combined
      · cases combined
  | subtract =>
      simp only [AssignOperator.combine] at combined
      split at combined
      · exact among.unchanged (fun _ => Value.plain_arithmetic) combined
      · cases combined

/-- Writing an element of a value changes no record that no value is. -/
theorem setElement {grown : Heap} {object index value : Value} (objectAmong : object.Among records)
    (valueAmong : value.Among records) (stored : heap.setElement object index value = .ok grown) :
    grown.Among records ∧ heap.Writes records grown := by
  unfold Heap.setElement at stored
  split at stored
  · split at stored <;> cases stored
    exact ⟨among.setItem valueAmong, .of_records rfl⟩
  · cases stored
    exact ⟨among.setMember valueAmong, .modifyRecord heap _ objectAmong⟩
  · cases stored

theorem bindParameters (locals : RecordRef) (parameters : List String) {arguments : List Value}
    (argumentsAmong : ∀ argument ∈ arguments, argument.Among records) :
    (heap.bindParameters locals parameters arguments).Among records := by
  induction parameters generalizing heap arguments with
  | nil => exact among
  | cons parameter parameters ih =>
      cases arguments with
      | nil => exact among
      | cons argument arguments =>
          obtain ⟨first, rest⟩ := List.forall_mem_cons.mp argumentsAmong
          obtain ⟨copied, grown⟩ := among.duplicate first
          exact ih (grown.setMember copied) rest

end Heap.Among

theorem Heap.Writes.bindParameters (heap : Heap) {locals : RecordRef} (allowed : written locals)
    (parameters : List String) (arguments : List Value) :
    heap.Writes written (heap.bindParameters locals parameters arguments) := by
  induction parameters generalizing heap arguments with
  | nil => exact .refl heap
  | cons parameter parameters ih =>
      cases arguments with
      | nil => exact .refl heap
      | cons argument arguments =>
          have copied : heap.Writes written (heap.duplicate argument).2 :=
            .of_records (heap.keepsObjects_duplicate argument).records
          exact (copied.trans (.modifyRecord _ _ allowed)).trans (ih _ arguments)

theorem Heap.Writes.release (context : Context) (heap : Heap)
    (allowed : context.ownsNames = true → written context.names) :
    heap.Writes written (context.release heap) := by
  unfold Context.release
  split
  · next owns => exact .modifyRecord heap _ (allowed owns)
  · exact .refl heap

end ScriptEngine
