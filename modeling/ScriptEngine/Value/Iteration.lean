import ScriptEngine.Value.Failure

/-!
# Iterations

A cursor over the items of an array, the characters of a text or the names of
the own members of a record. The cursor only counts; what it yields is read
from the value as it is at that moment.
-/

set_option autoImplicit false

namespace ScriptEngine

/-- The value that is iterated, and how many items have been yielded. -/
structure Iteration where
  source : Value
  position : Nat

namespace Iteration

def start (source : Value) : Except RuntimeCause Iteration :=
  match source with
  | .array _ => .ok ⟨source, 0⟩
  | .text _ => .ok ⟨source, 0⟩
  | .record _ => .ok ⟨source, 0⟩
  | _ => .error (.nonIterable source)

def itemAt (heap : Heap) (source : Value) (position : Nat) : Option Value :=
  match source with
  | .array reference => (heap.array reference)[position]?
  | .text text => text.toList[position]?.map fun character => .text character.toString
  | .record reference => (heap.record reference).names[position]?.map Value.text
  | _ => none

/-- The next item, and the cursor behind it. At the end the cursor stays. -/
def next (heap : Heap) (iteration : Iteration) : Option (Value × Iteration) :=
  (itemAt heap iteration.source iteration.position).map fun item =>
    (item, { iteration with position := iteration.position + 1 })

end Iteration

end ScriptEngine
