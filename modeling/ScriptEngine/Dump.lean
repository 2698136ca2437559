import ScriptEngine.Text.Quoted

/-!
# Debug output

Nested data as debug output shows it: a tree of named constructors with their
arguments or fields, written on one line or spread over indented lines.
-/

set_option autoImplicit false

namespace ScriptEngine

/-- A piece of data to show. A `call` without a name is a tuple. -/
inductive Dump where
  | atom (text : String)
  | call (name : String) (arguments : List Dump)
  | fields (name : String) (members : List (String × Dump))
  | items (elements : List Dump)

namespace Dump

def option : Option Dump → Dump
  | none => .atom "None"
  | some content => .call "Some" [content]

def text (content : String) : Dump :=
  .atom (quoteText content)

mutual

def inline : Dump → String
  | .atom text => text
  | .call name arguments => name ++ "(" ++ inlineItems arguments ++ ")"
  | .fields name members => name ++ " \x7b " ++ inlineFields members ++ " \x7d"
  | .items elements => "[" ++ inlineItems elements ++ "]"

def inlineItems : List Dump → String
  | [] => ""
  | [item] => item.inline
  | item :: rest => item.inline ++ ", " ++ inlineItems rest

def inlineFields : List (String × Dump) → String
  | [] => ""
  | [(name, value)] => name ++ ": " ++ value.inline
  | (name, value) :: rest => name ++ ": " ++ value.inline ++ ", " ++ inlineFields rest

end

def indentation : String := "    "

mutual

/-- One argument, field or element a line, each followed by a comma. The lines
after the first begin with `margin`. -/
def indented (margin : String) : Dump → String
  | .atom text => text
  | .call name arguments =>
      name ++ "(\n" ++ indentedItems (margin ++ indentation) arguments ++ margin ++ ")"
  | .fields name members =>
      name ++ " \x7b\n" ++ indentedFields (margin ++ indentation) members ++ margin ++ "\x7d"
  | .items elements =>
      match elements with
      | [] => "[]"
      | element :: rest =>
          "[\n" ++ indentedItems (margin ++ indentation) (element :: rest) ++ margin ++ "]"

/-- The items, each on lines of its own. -/
def indentedItems (margin : String) : List Dump → String
  | [] => ""
  | item :: rest => margin ++ item.indented margin ++ ",\n" ++ indentedItems margin rest

/-- The named fields, each on lines of its own. -/
def indentedFields (margin : String) : List (String × Dump) → String
  | [] => ""
  | (name, value) :: rest =>
      margin ++ name ++ ": " ++ value.indented margin ++ ",\n" ++ indentedFields margin rest

end

end Dump

end ScriptEngine
