import ScriptEngine.Value.Heap

/-!
# Equality of values

Numbers, texts and truth values are compared by what they are; arrays by their
items, unless they are the same object; records and functions only by being the
same object. Comparing two arrays that both contain themselves need not come to
an end. Equality is therefore decided for a bounded nesting and says when the
bound was not enough, which at a large enough bound means that there is no
answer at all.
-/

set_option autoImplicit false

namespace ScriptEngine.Heap

/-- Whether the pairs are all equal, tested from left to right up to the first
pair that differs. -/
def allEqual (equal : Value → Value → Option Bool) : List (Value × Value) → Option Bool
  | [] => some true
  | (left, right) :: rest =>
      match equal left right with
      | some true => allEqual equal rest
      | answer => answer

/-- Whether two values are equal, comparing arrays at most `depth` levels deep.
There is no answer if more would be needed. -/
def equalWithin (heap : Heap) : Nat → Value → Value → Option Bool
  | _, .none, .none => some true
  | _, .number left, .number right => some (left == right)
  | _, .text left, .text right => some (left == right)
  | _, .bool left, .bool right => some (left == right)
  | _, .record left, .record right => some (left == right)
  | _, .function left, .function right => some (left == right)
  | depth, .array left, .array right =>
      if left = right then some true
      else
        match depth with
        | 0 => none
        | depth + 1 =>
            let leftItems := (heap.array left).toList
            let rightItems := (heap.array right).toList
            if leftItems.length = rightItems.length then
              allEqual (heap.equalWithin depth) (leftItems.zip rightItems)
            else some false
  | _, _, _ => some false

/-- A depth at which a comparison that goes on has met some pair of arrays a
second time, and so goes on forever. -/
def comparisonBound (heap : Heap) : Nat :=
  (heap.arrays.size + 1) * (heap.arrays.size + 1)

/-- Whether two values are equal. There is no answer if the comparison does not
come to an end: who asks for it waits forever. -/
def equal? (heap : Heap) (left right : Value) : Option Bool :=
  heap.equalWithin heap.comparisonBound left right

end ScriptEngine.Heap
