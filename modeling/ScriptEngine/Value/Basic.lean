/-!
# Values

The values of the language. Arrays, records and functions are references into a
heap: copying such a value does not copy what it refers to, and two of them are
the same object exactly when their references are equal.
-/

set_option autoImplicit false

namespace ScriptEngine

/-- The place of an array in the heap. -/
structure ArrayRef where
  address : Nat
deriving DecidableEq, Repr

/-- The place of a record in the heap. -/
structure RecordRef where
  address : Nat
deriving DecidableEq, Repr

/-- The place of a function in the heap. -/
structure FunctionRef where
  address : Nat
deriving DecidableEq, Repr

/-- The values of the language. -/
inductive Value where
  | none
  | number (number : Float)
  | text (text : String)
  | bool (truth : Bool)
  | array (reference : ArrayRef)
  | record (reference : RecordRef)
  | function (reference : FunctionRef)

namespace Value

instance : Inhabited Value := ⟨.none⟩

def typeName : Value → String
  | none => "None"
  | number _ => "Number"
  | text _ => "Text"
  | bool _ => "Boolean"
  | array _ => "Array"
  | record _ => "Record"
  | function _ => "Function"

/-- The record in which the members of a value are looked up, if it has any. -/
def recordRef? : Value → Option RecordRef
  | record reference => some reference
  | _ => Option.none

end Value

end ScriptEngine
