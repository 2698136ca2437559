import ScriptEngine.Decimal.Writing
import ScriptEngine.Dump
import ScriptEngine.Value.Heap

/-!
# The text of values

How values print, and how debug output shows them. A value on its own prints
its text as it is and all members of a record; inside of another value texts
stand in quotes and records are left out. Arrays are opened eight levels deep
inside of a value, so that printing ends where an array contains itself.
-/

set_option autoImplicit false

namespace ScriptEngine.Heap

def commaSeparated (texts : List String) : String :=
  String.intercalate ", " texts

/-- The text of a value inside of another one, with at most `levels` further
levels of arrays and records opened. -/
def nestedText (heap : Heap) : Nat → Value → String
  | _, .none => "None"
  | _, .number number => NumberStyle.plain.write number
  | _, .text text => "\"" ++ text ++ "\""
  | _, .bool truth => if truth then "True" else "False"
  | _, .function reference => "<function " ++ (heap.function reference).name ++ ">"
  | 0, .array _ => "..."
  | 0, .record _ => "..."
  | levels + 1, .array reference =>
      "[" ++ commaSeparated ((heap.array reference).toList.map (heap.nestedText levels)) ++ "]"
  | _ + 1, .record _ => "\x7b...\x7d"

def nestingLimit : Nat := 8

def text (heap : Heap) : Value → String
  | .text text => text
  | .array reference =>
      "[" ++ commaSeparated ((heap.array reference).toList.map (heap.nestedText nestingLimit)) ++
        "]"
  | .record reference =>
      "\x7b" ++
        commaSeparated ((heap.record reference).members.map fun (name, value) =>
          name ++ ": " ++ heap.nestedText nestingLimit value) ++
        "\x7d"
  | value => heap.nestedText nestingLimit value

/-- The debug form of a value, opened at most `levels` levels deep. -/
def dumpWithin (heap : Heap) : Nat → Value → Dump
  | _, .none => .atom "None"
  | _, .number number => .call "Number" [.atom (NumberStyle.explicit.write number)]
  | _, .text text => .call "Text" [.text text]
  | _, .bool truth => .call "Bool" [.atom (if truth then "true" else "false")]
  | _, .function reference => .call "Function" [.text (heap.function reference).name]
  | 0, .array _ => .call "Array" [.atom ".."]
  | 0, .record _ => .call "Record" [.atom ".."]
  | levels + 1, .array reference =>
      .call "Array"
        [.fields "RefCell"
          [("value", .items ((heap.array reference).toList.map (heap.dumpWithin levels)))]]
  | levels + 1, .record reference =>
      .call "Record"
        [.items ((heap.record reference).members.map fun (name, value) =>
          .call "" [.text name, heap.dumpWithin levels value])]

/-- The debug form of a value. Without cycles no value is nested more deeply than
there are arrays and records. -/
def dump (heap : Heap) (value : Value) : Dump :=
  heap.dumpWithin (heap.arrays.size + heap.records.size) value

end ScriptEngine.Heap
