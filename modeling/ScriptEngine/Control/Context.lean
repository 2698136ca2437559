import ScriptEngine.Control.Frame
import ScriptEngine.Evaluation

/-!
# Contexts

A context runs the statements of one scope: the top level of a script, the body
of a function, or the block of a record. Its frames are the sequences that it
is inside of, the innermost first. Statements never move on by themselves; they
proceed, open a frame or jump.
-/

set_option autoImplicit false

namespace ScriptEngine

/-- What a context runs, and where its names are kept: in the globals, in locals
of their own, or in a record that the block makes. -/
inductive ContextKind where
  | base
  | function
  | block
deriving DecidableEq, Repr

/-- A running scope: its kind, the evaluation of its current statement, the
sequences that it is inside of, whether its record of names belongs to it, and
the value that it ended with. -/
structure Context where
  kind : ContextKind
  evaluation : Evaluation
  frames : List Frame
  ownsNames : Bool
  returnValue : Option Value

namespace Context

def new (kind : ContextKind) (script : Script) (chain : ScopeChain) (ownsNames : Bool) :
    Context :=
  ⟨kind, Evaluation.new script chain, [], ownsNames, none⟩

/-- The top level of a script: names are globals. -/
def base (script : Script) (globals : RecordRef) : Context :=
  new .base script ⟨globals, []⟩ false

/-- The body of a function: names are locals, with the globals behind them. -/
def functionCall (script : Script) (locals globals : RecordRef) : Context :=
  new .function script ⟨locals, [globals]⟩ true

/-- The block of a record: names are members of the new record, with everything
that was visible before behind them. -/
def block (script : Script) (members : RecordRef) (parents : List RecordRef) : Context :=
  new .block script ⟨members, parents⟩ true

def script (context : Context) : Script :=
  context.evaluation.script

def names (context : Context) : RecordRef :=
  context.evaluation.chain.names

/-- The records in which names are looked up, innermost first. -/
def visible (context : Context) : List RecordRef :=
  context.evaluation.chain.toList

def current (context : Context) : Option StatementRef :=
  context.frames.head?.bind Frame.current

def iteration (context : Context) : Option Iteration :=
  context.frames.head?.bind Frame.iteration

/-- Changes the innermost frame, if there is one. -/
def modifyFrame (context : Context) (change : Frame → Frame) : Context :=
  match context.frames with
  | [] => context
  | frame :: rest => { context with frames := change frame :: rest }

def setIteration (context : Context) (iteration : Option Iteration) : Context :=
  context.modifyFrame fun frame => { frame with iteration }

/-- Lets a statement be the next one in the innermost frame. Any evaluation that
was under way is forgotten; without a frame nothing happens. -/
def resumeAt (context : Context) (statement : Option StatementRef) : Context :=
  match context.frames with
  | [] => context
  | frame :: rest =>
      { context with
        frames := { frame with current := statement } :: rest
        evaluation := context.evaluation.reset }

/-- Goes on with the statement after the current one, leaving every frame whose
sequence has come to its end. -/
def proceed (context : Context) : Context :=
  let next := context.current.bind context.script.next
  let (next, frames) := Frame.leaveFinished next context.frames
  { context with frames }.resumeAt next

/-- Opens a frame. An empty sequence falls through to the fallback at once. -/
def enter (context : Context)
    (statement fallback continueTarget breakTarget : Option StatementRef) : Context :=
  let opened :=
    { context with
      frames := ⟨statement, fallback, continueTarget, breakTarget, none⟩ :: context.frames
      evaluation := context.evaluation.reset }
  if statement.isNone then opened.proceed else opened

/-- Opens the frame of a loop's body, which falls back to the loop. -/
def enterLoopBody (context : Context) (loop : StatementRef) (body : Option StatementRef) :
    Context :=
  context.enter body (some loop) (some loop) (some loop)

/-- Goes on with the next pass of the innermost loop. If there is no loop, all
frames are gone. -/
def nextLoopPass (context : Context) : Except JumpFailure Unit × Context :=
  match Frame.findContinue context.frames with
  | some (target, frames) => (.ok (), { context with frames }.resumeAt (some target))
  | none => (.error .noContinueTarget, { context with frames := [] })

/-- Leaves `count` loops and goes on after the outermost of them, whose cursor is
gone. If there are fewer loops, all frames are gone. -/
def breakOut (context : Context) (count : Nat) : Except JumpFailure Unit × Context :=
  if count = 0 then
    (.error .invalidBreakCount, context)
  else
    let (missing, target, frames) := Frame.leaveBreakable none count context.frames
    let left := { context with frames }
    match target with
    | none => (.error .noBreakTarget, left)
    | some loop =>
        if missing = 0 then
          (.ok (), ((left.resumeAt (some loop)).setIteration none).proceed)
        else
          (.error (.tooFewCompounds missing), left)

def reset (context : Context) : Context :=
  { context with frames := [], evaluation := context.evaluation.reset }

def returnWith (context : Context) (value : Value) : Context :=
  { context with returnValue := some value }.reset

def takeReturn (context : Context) : Option Value × Context :=
  (context.returnValue, { context with returnValue := none })

/-- Gives the record of names away, which the context must own. -/
def takeNames (context : Context) : Except RuntimeCause RecordRef × Context :=
  if context.ownsNames then (.ok context.names, { context with ownsNames := false })
  else (.error .borrowedNamespace, context)

/-- The heap after a context is done with: names that it still owns are cleared,
since they may refer to themselves. -/
def release (context : Context) (heap : Heap) : Heap :=
  if context.ownsNames then heap.clearRecord context.names else heap

end Context

end ScriptEngine
