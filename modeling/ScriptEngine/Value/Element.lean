import ScriptEngine.Value.Failure
import ScriptEngine.Value.Lookup

/-!
# Elements

Reading and writing at an index. Items of arrays and characters of texts are
counted from zero, and negative indices count from the end; members of records
are indexed by their names.
-/

set_option autoImplicit false

namespace ScriptEngine

/-- The position that an index means in a sequence. Only whole numbers are
indices; those from `-length` up to but not including `length` are in range. -/
def indexPosition (index : Value) (length : Nat) : Except RuntimeCause Nat :=
  match index with
  | .number number =>
      match Binary64.integer? number with
      | none => .error (.invalidArgument index)
      | some whole =>
          let position := if whole < 0 then length + whole else whole
          if 0 ≤ position ∧ position < length then .ok position.toNat
          else .error (.indexOutOfRange index length)
  | _ => .error (.invalidArgument index)

namespace Heap

def element (heap : Heap) : Value → Value → Except RuntimeCause Value
  | .array reference, index =>
      let items := heap.array reference
      match indexPosition index items.size with
      | .ok position => .ok (items[position]?.getD .none)
      | .error cause => .error cause
  | .text text, index =>
      let characters := text.toList
      match indexPosition index characters.length with
      | .ok position => .ok (.text (String.ofList (characters[position]?.toList)))
      | .error cause => .error cause
  | .record reference, .text name =>
      match heap.lookup reference name with
      | some value => .ok value
      | none => .error (.undefinedMember name)
  | object, _ => .error (.nonIndexable object)

/-- Writes the element at an index: an item of an array, or an own member of a
record. The length of an array never changes. -/
def setElement (heap : Heap) (object index value : Value) : Except RuntimeCause Heap :=
  match object, index with
  | .array reference, _ =>
      match indexPosition index (heap.array reference).size with
      | .ok position => .ok (heap.setItem reference position value)
      | .error cause => .error cause
  | .record reference, .text name => .ok (heap.setMember reference name value)
  | _, _ => .error (.nonIndexable object)

end Heap

end ScriptEngine
