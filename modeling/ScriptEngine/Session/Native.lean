import ScriptEngine.Decimal.Reading
import ScriptEngine.Session.Basic
import ScriptEngine.Text.Blank

/-!
# Native functions

What the native functions do, and the globals that a session begins with.
-/

set_option autoImplicit false

namespace ScriptEngine

/-- The global record with the methods that every record can inherit. -/
def objectName : String := "Object"

/-- The functions of the library that are globals, with their parameters. -/
def libraryFunctions : List (String × List String × NativeAction) :=
  [("len", ["value"], .length), ("typeof", ["value"], .typeName), ("text", ["value"], .text),
    ("number", ["value"], .number), ("range", ["count"], .range), ("clock", [], .clock)]

/-- The functions of the library that are members of the object record. -/
def libraryMethods : List (String × List String × NativeAction) :=
  [("members", [], .memberNames), ("has", ["name"], .hasMember)]

namespace Heap

def installNative (heap : Heap) (target : RecordRef) (name : String) (parameters : List String)
    (action : NativeAction) : Heap :=
  let (function, heap) := heap.newFunction ⟨name, parameters, .native action, none⟩
  heap.setMember target name (.function function)

def installAll (heap : Heap) (target : RecordRef)
    (functions : List (String × List String × NativeAction)) : Heap :=
  functions.foldl
    (fun heap (name, parameters, action) => heap.installNative target name parameters action)
    heap

def newGlobals (heap : Heap) : RecordRef × Heap :=
  let (globals, heap) := heap.newRecord .empty
  let heap := heap.installAll globals libraryFunctions
  let (object, heap) := heap.newRecord .empty
  let heap := heap.installAll object libraryMethods
  (globals, heap.setMember globals objectName (.record object))

end Heap

namespace Session

def new (timeLimit : Option Nat) : Session :=
  let (globals, heap) := Heap.empty.newGlobals
  ⟨.stopped, [], heap, globals, "", timeLimit, 0, none, none⟩

def install (session : Session) (name : String) (parameters : List String)
    (action : NativeAction) : Session :=
  { session with heap := session.heap.installNative session.globals name parameters action }

def newArrayValue (session : Session) (items : List Value) : Value × Session :=
  let (array, heap) := session.heap.newArray items.toArray
  (.array array, { session with heap })

def receiverRecord (receiver : Option Value) : Except RuntimeCause RecordRef :=
  match receiver with
  | none => .error .undefinedScope
  | some value =>
      match value.recordRef? with
      | some record => .ok record
      | none => .error (.nonRecord value)

/-- The length of a text in characters, of an array in items, or of a record in
own members. -/
def lengthOf (heap : Heap) : Value → Except RuntimeCause Nat
  | .text text => .ok text.length
  | .array reference => .ok (heap.array reference).size
  | .record reference => .ok (heap.record reference).size
  | value => .error (.invalidArgument value)

/-- The number that a value stands for. A text is read with the blanks at its
ends left out. -/
def numberOf : Value → Except RuntimeCause Float
  | .number number => .ok number
  | .bool truth => .ok (if truth then 1.0 else 0.0)
  | .text text =>
      match DecimalText.number? (trimBlanks text.toList) with
      | some number => .ok number
      | none => .error (.invalidArgument (.text text))
  | value => .error (.invalidArgument value)

/-- How many numbers a range has: a whole number that is not negative. -/
def rangeLength (value : Value) : Except RuntimeCause Nat :=
  match value with
  | .number number =>
      match Binary64.integer? number with
      | some (.ofNat count) => .ok count
      | _ => .error (.invalidArgument value)
  | _ => .error (.invalidArgument value)

/-- The visible namespaces as a report shows them: the globals by a word, any
other record by its member names. -/
def namespaceValues (session : Session) : List RecordRef → List Value × Session
  | [] => ([], session)
  | reference :: rest =>
      let (value, session) :=
        if reference = session.globals then (.text "globals", session)
        else
          session.newArrayValue ((session.heap.record reference).names.map Value.text)
      let (values, session) := session.namespaceValues rest
      (value :: values, session)

/-- Writes down a tag, the depth, the visible namespaces and the number of
arguments of the call, and gives the receiver. -/
def report (session : Session) (arguments : List Value) (receiver : Option Value) :
    Value × Session :=
  let (namespaces, session) := session.namespaceValues session.namespaces
  let (visible, session) := session.newArrayValue namespaces
  let (line, session) :=
    session.newArrayValue
      [arguments.head?.getD .none, .number (Float.ofNat session.depth), visible,
        .number (Float.ofNat arguments.length), arguments[7]?.getD .none]
  (receiver.getD .none, session.writeLine (session.heap.text line))

/-- Runs a native function. Its arguments have been counted; one that is missing
nevertheless reads as nothing. -/
def runNative (session : Session) (action : NativeAction) (arguments : List Value)
    (receiver : Option Value) : Except RuntimeCause Value × Session :=
  let argument := arguments.head?.getD .none
  match action with
  | .length =>
      ((lengthOf session.heap argument).map fun length => .number (Float.ofNat length), session)
  | .typeName => (.ok (.text argument.typeName), session)
  | .text => (.ok (.text (session.heap.text argument)), session)
  | .number => ((numberOf argument).map Value.number, session)
  | .range =>
      match rangeLength argument with
      | .ok count =>
          let (array, session) :=
            session.newArrayValue
              ((List.range count).map fun index => .number (Float.ofNat index))
          (.ok array, session)
      | .error cause => (.error cause, session)
  | .clock => (.ok (.number (Float.ofNat session.now / 1000000.0)), session)
  | .memberNames =>
      match receiverRecord receiver with
      | .ok record =>
          let (array, session) :=
            session.newArrayValue ((session.heap.record record).names.map Value.text)
          (.ok array, session)
      | .error cause => (.error cause, session)
  | .hasMember =>
      match argument with
      | .text name =>
          (((receiverRecord receiver).map fun record =>
            .bool (session.heap.lookup record name).isSome), session)
      | _ => (.error (.invalidArgument argument), session)
  | .rest => (.ok .none, session)
  | .suspend => (.ok .none, session.suspend true)
  | .report =>
      let (value, session) := session.report arguments receiver
      (.ok value, session)

end Session

end ScriptEngine
