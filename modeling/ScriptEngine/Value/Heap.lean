import ScriptEngine.Script.Basic
import ScriptEngine.Value.Record

/-!
# The heap

Everything that values refer to. New objects are put behind the existing ones
and nothing is ever taken away, so a reference stays valid and names the same
object forever. A reference that is out of bounds reads as an empty object, and
writing through it changes nothing.
-/

set_option autoImplicit false

namespace ScriptEngine

/-- What a native function does. The first eight belong to the library of the
language. The others are for hosts: `rest` does nothing, `suspend` asks for the
session to be suspended, and `report` writes down where it was called. -/
inductive NativeAction where
  | length
  | typeName
  | text
  | number
  | range
  | clock
  | memberNames
  | hasMember
  | rest
  | suspend
  | report
deriving DecidableEq, Repr

/-- What a call of a function runs: statements of a script, or a native action. -/
inductive FunctionBody where
  | script (script : Script) (entry : Option StatementRef)
  | native (action : NativeAction)

/-- A function. Calls of a script function look free names up in `globals`; a
function without globals uses those of the session that calls it. -/
structure Function where
  name : String
  parameters : List String
  body : FunctionBody
  globals : Option RecordRef

namespace Function

instance : Inhabited Function := ⟨"", [], .native .rest, none⟩

def isNative (function : Function) : Bool :=
  match function.body with
  | .native _ => true
  | .script .. => false

end Function

/-- The objects of each kind, oldest first. -/
structure Heap where
  arrays : Array (Array Value)
  records : Array Record
  functions : Array Function

namespace Heap

def empty : Heap := ⟨#[], #[], #[]⟩

instance : Inhabited Heap := ⟨empty⟩

def array (heap : Heap) (reference : ArrayRef) : Array Value :=
  heap.arrays[reference.address]?.getD #[]

def record (heap : Heap) (reference : RecordRef) : Record :=
  heap.records[reference.address]?.getD .empty

def function (heap : Heap) (reference : FunctionRef) : Function :=
  heap.functions[reference.address]?.getD default

def newArray (heap : Heap) (items : Array Value) : ArrayRef × Heap :=
  (⟨heap.arrays.size⟩, { heap with arrays := heap.arrays.push items })

def newRecord (heap : Heap) (record : Record) : RecordRef × Heap :=
  (⟨heap.records.size⟩, { heap with records := heap.records.push record })

def newFunction (heap : Heap) (function : Function) : FunctionRef × Heap :=
  (⟨heap.functions.size⟩, { heap with functions := heap.functions.push function })

/-- Replaces one item of an array. A position out of bounds changes nothing. -/
def setItem (heap : Heap) (reference : ArrayRef) (position : Nat) (value : Value) : Heap :=
  { heap with
    arrays := heap.arrays.modify reference.address fun items => items.setIfInBounds position value }

def modifyRecord (heap : Heap) (reference : RecordRef) (change : Record → Record) : Heap :=
  { heap with records := heap.records.modify reference.address change }

def setMember (heap : Heap) (reference : RecordRef) (name : String) (value : Value) : Heap :=
  heap.modifyRecord reference (·.insert name value)

def eraseMember (heap : Heap) (reference : RecordRef) (name : String) : Heap :=
  heap.modifyRecord reference (·.erase name)

def clearRecord (heap : Heap) (reference : RecordRef) : Heap :=
  heap.modifyRecord reference fun _ => .empty

/-- A copy to be kept elsewhere: an array is copied item by item, everything else
is shared. -/
def duplicate (heap : Heap) : Value → Value × Heap
  | .array reference =>
      let (copy, heap) := heap.newArray (heap.array reference)
      (.array copy, heap)
  | value => (value, heap)

theorem array_newArray (heap : Heap) (items : Array Value) :
    (heap.newArray items).2.array (heap.newArray items).1 = items := by
  simp [newArray, array]

/-- A new array leaves the arrays that were there before as they are. -/
theorem array_newArray_of_lt (heap : Heap) (items : Array Value) {reference : ArrayRef}
    (present : reference.address < heap.arrays.size) :
    (heap.newArray items).2.array reference = heap.array reference := by
  simp [newArray, array, Array.getElem?_push, Nat.ne_of_lt present]

theorem record_newRecord (heap : Heap) (record : Record) :
    (heap.newRecord record).2.record (heap.newRecord record).1 = record := by
  simp [newRecord, Heap.record]

/-- A new record leaves the records that were there before as they are. -/
theorem record_newRecord_of_lt (heap : Heap) (record : Record) {reference : RecordRef}
    (present : reference.address < heap.records.size) :
    (heap.newRecord record).2.record reference = heap.record reference := by
  simp [newRecord, Heap.record, Array.getElem?_push, Nat.ne_of_lt present]

/-- Writing an item of an array changes this item and no other array. -/
theorem array_setItem (heap : Heap) (written read : ArrayRef) (position : Nat) (value : Value) :
    (heap.setItem written position value).array read =
      if read = written then (heap.array read).setIfInBounds position value
      else heap.array read := by
  obtain ⟨writtenAddress⟩ := written
  obtain ⟨readAddress⟩ := read
  simp only [setItem, array, Array.getElem?_modify, ArrayRef.mk.injEq]
  by_cases same : writtenAddress = readAddress
  · subst same
    cases heap.arrays[writtenAddress]? <;> simp
  · simp [same, Ne.symm same]

/-- Changing a record changes no other record. A record that is not there stays
empty. -/
theorem record_modifyRecord (heap : Heap) (written read : RecordRef) (change : Record → Record)
    (present : written.address < heap.records.size) :
    (heap.modifyRecord written change).record read =
      if read = written then change (heap.record read) else heap.record read := by
  obtain ⟨writtenAddress⟩ := written
  obtain ⟨readAddress⟩ := read
  simp only [modifyRecord, Heap.record, Array.getElem?_modify, RecordRef.mk.injEq]
  by_cases same : writtenAddress = readAddress
  · subst same
    simp [present]
  · simp [same, Ne.symm same]

/-- Binding a member changes what is read under its name in its record, and
nothing else. -/
theorem get?_record_setMember (heap : Heap) (written read : RecordRef) (name key : String)
    (value : Value) (present : written.address < heap.records.size) :
    ((heap.setMember written name value).record read).get? key =
      if read = written ∧ key = name then some value else (heap.record read).get? key := by
  rw [setMember, record_modifyRecord heap written read _ present]
  by_cases same : read = written
  · simp [same, Record.get?_insert]
  · simp [same]

end Heap

end ScriptEngine
