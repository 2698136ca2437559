import ScriptEngine.Control.Context

/-!
# Sessions

A session runs scripts one after another over the same globals. Its contexts
form a stack: a call of a function and the block of a record run in a context
above the one whose statement they belong to, which waits for them. A context
stays on the stack while its statement runs, with what it is in the middle of.
To keep the contexts at rest apart from what the others see would be to keep two
parts of this one list, `restingIn` and `executingIn`.

Time in a session is counted in microseconds, and every statement takes one.
-/

set_option autoImplicit false

namespace ScriptEngine

/-- What a statement is going to do with the value of the expression that it
waits for. The values that it has already got are kept here. -/
inductive Continuation where
  | discard
  | print (line : String) (rest : List ExpressionRef)
  | assignName (name : String) (operator : AssignOperator) (span : Span)
  | assignMemberOf (name : String) (operator : AssignOperator) (value : ExpressionRef)
      (span : Span)
  | assignMember (object : RecordRef) (name : String) (operator : AssignOperator) (span : Span)
  | assignElementOf (index value : ExpressionRef) (operator : AssignOperator) (span : Span)
  | assignElementAt (object : Value) (value : ExpressionRef) (operator : AssignOperator)
      (span : Span)
  | assignElement (object index : Value) (operator : AssignOperator) (span : Span)
  | branch (body : Option StatementRef) (rest : List (ExpressionRef × Option StatementRef))
      (otherwise : Option (Option StatementRef)) (following : Option StatementRef)
  | whileLoop (loop : StatementRef) (body : Option StatementRef)
  | forLoop (loop : StatementRef) (item : String) (body : Option StatementRef) (span : Span)
  | returnValue

/-- What a context is in the middle of. -/
inductive Activity where
  /-- Nothing: it is between two statements. -/
  | resting
  | evaluating (continuation : Continuation)
  /-- Its statement evaluates an expression that has called a function, whose
  context is the one above. The result is put beside the scope of the call. -/
  | calling (continuation : Continuation) (scope : Option Value) (span : Span)
  /-- Its statement makes a record, whose block is the context above. -/
  | declaring (name : String) (span : Span)

/-- A context with what it is in the middle of. -/
structure Activation where
  context : Context
  activity : Activity

namespace Activation

def awaits (activation : Activation) : Bool :=
  match activation.activity with
  | .calling .. => true
  | .declaring .. => true
  | .resting => false
  | .evaluating _ => false

def rests (activation : Activation) : Bool :=
  match activation.activity with
  | .resting => true
  | _ => false

end Activation

/-- Whether a script is under way, and whether it waits. -/
inductive SessionState where
  | stopped
  | running
  | suspended
deriving DecidableEq, Repr

/-- Everything that outlives a statement: contexts, objects, output and time. -/
structure Session where
  state : SessionState
  /-- The contexts, the innermost first. -/
  stack : List Activation
  heap : Heap
  globals : RecordRef
  output : String
  timeLimit : Option Nat
  now : Nat
  startedAt : Option Nat
  suspendedAt : Option Nat

namespace Session

def writeLine (session : Session) (text : String) : Session :=
  { session with output := session.output ++ text ++ "\n" }

/-- The number of contexts, those in the middle of a statement included. -/
def depth (session : Session) : Nat :=
  session.stack.length

def context? (session : Session) : Option Context :=
  session.stack.head?.map Activation.context

/-- The records that are visible in the innermost context, innermost first; the
globals alone if there is no context. -/
def namespaces (session : Session) : List RecordRef :=
  match session.context? with
  | some context => context.visible
  | none => [session.globals]

/-- Changes the innermost context, if there is one. -/
def modifyContext (session : Session) (change : Context → Context) : Session :=
  match session.stack with
  | [] => session
  | top :: below => { session with stack := { top with context := change top.context } :: below }

def push (session : Session) (context : Context) : Session :=
  { session with stack := ⟨context, .resting⟩ :: session.stack }

/-- Whether the innermost context is at rest and no other waits for it. -/
def isSettled (session : Session) : Bool :=
  match session.stack with
  | [] => true
  | [top] => top.rests
  | top :: caller :: _ => top.rests && !caller.awaits

def isOverdue (session : Session) : Option Nat :=
  match session.timeLimit, session.startedAt with
  | some limit, some startedAt =>
      if 1000 * limit < session.now - startedAt then some limit else none
  | _, _ => none

/-- Lets a script go on, or makes it wait. The time of the wait does not count. -/
def suspend (session : Session) (suspended : Bool) : Session :=
  match session.state, suspended with
  | .running, true => { session with suspendedAt := some session.now, state := .suspended }
  | .suspended, false =>
      let startedAt :=
        match session.startedAt, session.suspendedAt with
        | some startedAt, some suspendedAt => some (startedAt + (session.now - suspendedAt))
        | startedAt, _ => startedAt
      { session with startedAt, suspendedAt := none, state := .running }
  | _, _ => session

end Session

end ScriptEngine
