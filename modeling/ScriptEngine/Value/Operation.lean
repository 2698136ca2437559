import ScriptEngine.Value.Equality
import ScriptEngine.Value.Failure
import ScriptEngine.Value.Lookup

/-!
# Operators on values

What the operators of the language give for every pair of operands, and which
error they raise where they give nothing. Operators that compare values have no
answer at all, neither a value nor an error, if a comparison does not come to
an end.
-/

set_option autoImplicit false

namespace ScriptEngine

namespace Heap

def isTruthy (heap : Heap) : Value → Bool
  | .none => false
  | .bool truth => truth
  | .number number => number != 0.0
  | .text text => text ≠ ""
  | .array reference => (heap.array reference).size ≠ 0
  | .record _ => true
  | .function _ => true

/-- The sum of numbers, and the concatenation of texts or of arrays. -/
def add (heap : Heap) : Value → Value → Except RuntimeCause (Value × Heap)
  | .number left, .number right => .ok (.number (left + right), heap)
  | .text left, .text right => .ok (.text (left ++ right), heap)
  | .array left, .array right =>
      let (joined, heap) := heap.newArray (heap.array left ++ heap.array right)
      .ok (.array joined, heap)
  | left, right => .error (.nonAddable left right)

def containsRun (characters part : List Char) : Bool :=
  match characters with
  | [] => part.isEmpty
  | _ :: rest => part.isPrefixOf characters || containsRun rest part

/-- Whether some of the items is equal to the one that is sought, tested from
left to right up to the first that is. -/
def holdsEqual (heap : Heap) (sought : Value) : List Value → Option Bool
  | [] => some false
  | held :: rest =>
      match heap.equal? held sought with
      | some false => heap.holdsEqual sought rest
      | answer => answer

/-- Whether an item is in a container: an item of an array, a part of a text, or
a member of a record, own or inherited. -/
def contains (heap : Heap) : Value → Value → Option (Except RuntimeCause Bool)
  | .array reference, item => (heap.holdsEqual item (heap.array reference).toList).map .ok
  | .text text, .text part => some (.ok (containsRun text.toList part.toList))
  | .record reference, .text name => some (.ok (heap.lookup reference name).isSome)
  | container, _ => some (.error (.nonIterable container))

end Heap

namespace Value

def negate : Value → Except RuntimeCause Value
  | number operand => .ok (number (-operand))
  | operand => .error (.nonNumeric operand)

def arithmetic (operation : Float → Float → Float) : Value → Value → Except RuntimeCause Value
  | number left, number right => .ok (number (operation left right))
  | left, right => .error (.nonNumerics left right)

def subtract : Value → Value → Except RuntimeCause Value := arithmetic (· - ·)

def multiply : Value → Value → Except RuntimeCause Value := arithmetic (· * ·)

/-- The quotient of two numbers. Dividing by zero gives an infinity or no number
at all. -/
def divide : Value → Value → Except RuntimeCause Value := arithmetic (· / ·)

/-- The remainder of two numbers, with the sign of the left one. -/
def modulo : Value → Value → Except RuntimeCause Value := arithmetic Binary64.remainder

/-- The order of two numbers or of two texts. A value that is no number is in no
order to any other; texts are ordered by their code points. -/
def compare? : Value → Value → Option Ordering
  | number left, number right =>
      if left < right then some .lt
      else if left == right then some .eq
      else if right < left then some .gt
      else Option.none
  | text left, text right => some (compareOfLessAndEq left right)
  | _, _ => Option.none

/-- A comparison, which is false for two numbers that are in no order. -/
def ordered (accepts : Ordering → Bool) (left right : Value) : Except RuntimeCause Value :=
  match compare? left right, left, right with
  | some ordering, _, _ => .ok (bool (accepts ordering))
  | Option.none, number _, number _ => .ok (bool false)
  | Option.none, _, _ => .error (.nonComparable left right)

def lessThan : Value → Value → Except RuntimeCause Value := ordered Ordering.isLT

/-- Whether the left value comes before the right one or is equal to it. -/
def lessThanOrEqual : Value → Value → Except RuntimeCause Value := ordered Ordering.isLE

def greaterThan : Value → Value → Except RuntimeCause Value := ordered Ordering.isGT

/-- Whether the left value comes after the right one or is equal to it. -/
def greaterThanOrEqual : Value → Value → Except RuntimeCause Value := ordered Ordering.isGE

end Value

namespace Heap

def applyUnary (heap : Heap) (operator : UnaryOperator) (operand : Value) :
    Except RuntimeCause Value :=
  match operator with
  | .minus => operand.negate
  | .not => .ok (.bool (!heap.isTruthy operand))

/-- What a binary operator gives, and the heap with the array that it may make. -/
def applyBinary (heap : Heap) (operator : BinaryOperator) (left right : Value) :
    Option (Except RuntimeCause (Value × Heap)) :=
  let unchanged (answer : Except RuntimeCause Value) : Except RuntimeCause (Value × Heap) :=
    answer.map fun value => (value, heap)
  match operator with
  | .add => some (heap.add left right)
  | .subtract => some (unchanged (left.subtract right))
  | .multiply => some (unchanged (left.multiply right))
  | .divide => some (unchanged (left.divide right))
  | .modulo => some (unchanged (left.modulo right))
  | .equal => (heap.equal? left right).map fun same => unchanged (.ok (.bool same))
  | .notEqual => (heap.equal? left right).map fun same => unchanged (.ok (.bool (!same)))
  | .lessThan => some (unchanged (left.lessThan right))
  | .lessThanOrEqual => some (unchanged (left.lessThanOrEqual right))
  | .greaterThan => some (unchanged (left.greaterThan right))
  | .greaterThanOrEqual => some (unchanged (left.greaterThanOrEqual right))
  | .contained => (heap.contains right left).map fun held => unchanged (held.map Value.bool)

end Heap

end ScriptEngine
