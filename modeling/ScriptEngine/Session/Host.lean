import ScriptEngine.Session.Advance

/-!
# Operations for hosts

What a host does with a session: run a script to its end or statement by
statement, call functions, suspend and stop. A script need not come to an end,
so operations that run something take a bound on the number of turns and say
when it was not enough. A turn that goes on forever is never enough.
-/

set_option autoImplicit false

namespace ScriptEngine

/-- The answer to an operation that runs something. It is unfinished, which is no
answer, if the turns were not enough or one of them goes on forever. -/
inductive Answer (α : Type) where
  | value (value : α)
  | failed (failure : RuntimeError)
  | unfinished

namespace Session

/-- Takes turns until the statement that was begun is done, with all that it
called. -/
def finishStatement : Nat → Session → Answer Unit × Session
  | 0, session => (.unfinished, session)
  | turns + 1, session =>
      if session.isSettled then (.value (), session)
      else
        match session.advance with
        | (.working, session) => finishStatement turns session
        | (.idle, session) => (.value (), session)
        | (.failed failure, session) => (.failed failure, session)
        | (.endless, session) => (.unfinished, session)

/-- Runs one statement of the innermost context. Answers whether there was one. -/
def step (turns : Nat) (session : Session) : Answer Bool × Session :=
  match session.advance with
  | (.idle, session) => (.value false, session)
  | (.failed failure, session) => (.failed failure, session)
  | (.endless, session) => (.unfinished, session)
  | (.working, session) =>
      match finishStatement turns session with
      | (.value (), session) => (.value true, session)
      | (.failed failure, session) => (.failed failure, session)
      | (.unfinished, session) => (.unfinished, session)

/-- Runs until the script ends, fails or is suspended. It is suspended between
two statements of the outermost context only. -/
def execute : Nat → Session → Answer Unit × Session
  | 0, session => (.unfinished, session)
  | turns + 1, session =>
      if session.isSettled && session.state ≠ .running then (.value (), session)
      else
        match session.advance with
        | (.working, session) => execute turns session
        | (.idle, session) => (.value (), { session with state := .stopped })
        | (.failed failure, session) => (.failed failure, { session with state := .stopped })
        | (.endless, session) => (.unfinished, session)

def releaseAll (stack : List Activation) (heap : Heap) : Heap :=
  stack.foldl (fun heap activation => activation.context.release heap) heap

def clear (session : Session) : Session :=
  { session with stack := [], heap := releaseAll session.stack session.heap }

/-- Prepares a script to run from its first statement, unless another script is
still running. -/
def run (session : Session) (script : Script) : Except RuntimeError Session :=
  if session.state ≠ .stopped then
    .error (.unplaced .notStopped)
  else
    let session := session.clear
    let context := (Context.base script session.globals).enter script.first none none none
    .ok
      { session with
        stack := [⟨context, .resting⟩]
        startedAt := some session.now
        suspendedAt := none
        state := .running }

def stop (session : Session) : Session :=
  { session.clear with suspendedAt := none, state := .stopped }

def runToEnd : Nat → Session → Answer Unit × Session
  | 0, session => (.unfinished, session)
  | turns + 1, session =>
      match session.advance with
      | (.working, session) => runToEnd turns session
      | (.idle, session) => (.value (), session)
      | (.failed failure, session) => (.failed failure, session)
      | (.endless, session) => (.unfinished, session)

/-- Takes the innermost context off the stack, giving what it ended with. -/
def pop (session : Session) : Option Value × Session :=
  match session.stack with
  | [] => (none, session)
  | top :: below =>
      (top.context.returnValue,
        { session with stack := below, heap := top.context.release session.heap })

/-- Runs a context above the others to its end. This happens outside of any
statement, so it has a time of its own. -/
def runContext (turns : Nat) (session : Session) (context : Context) : Answer Value × Session :=
  let startedAt := session.startedAt
  let pushed := { session with startedAt := some session.now }.push context
  match runToEnd turns pushed with
  | (.value (), session) =>
      let (value, session) := { session with startedAt }.pop
      (.value (value.getD .none), session)
  | (.failed failure, session) => (.failed failure, { session with startedAt }.pop.2)
  | (.unfinished, session) => (.unfinished, session)

def call (turns : Nat) (session : Session) (function : FunctionRef) (arguments : List Value)
    (receiver : Option Value) : Answer Value × Session :=
  let called := session.heap.function function
  match called.checkArity arguments.length with
  | .error cause => (.failed (.unplaced cause), session)
  | .ok () =>
      match called.body with
      | .native action =>
          match session.runNative action arguments receiver with
          | (.ok value, session) => (.value value, session)
          | (.error cause, session) => (.failed (.unplaced cause), session)
      | .script script entry =>
          let (context, session) :=
            session.callContext script entry called.parameters called.globals arguments receiver
          runContext turns session context

/-- Runs one statement of a context of its own, outside of all others. Answers
whether there was one. -/
def executeIn (turns : Nat) (session : Session) (context : Context) :
    Answer Bool × Context × Session :=
  let (answer, ran) := step turns { session with stack := [⟨context, .resting⟩] }
  (answer, (ran.context?).getD context, { ran with stack := session.stack })

/-- Goes on with an evaluation of its own, outside of all contexts. -/
def finishEvaluation : Nat → Session → Evaluation → Answer Value × Evaluation × Session
  | 0, session, evaluation => (.unfinished, evaluation, session)
  | turns + 1, session, evaluation =>
      let (turn, evaluation, heap) := evaluation.advance session.heap
      let session := { session with heap }
      match turn with
      | .working => finishEvaluation turns session evaluation
      | .finished value => (.value value, evaluation, session)
      | .failed failure => (.failed failure, evaluation, session)
      | .endless => (.unfinished, evaluation, session)
      | .call request scope =>
          match session.call turns request.function request.arguments request.receiver with
          | (.value value, session) =>
              finishEvaluation turns session (evaluation.pushResult value scope)
          | (.failed failure, session) =>
              (.failed (failure.withDefaultSpan request.span), evaluation, session)
          | (.unfinished, session) => (.unfinished, evaluation, session)

/-- Evaluates an expression, outside of all contexts. -/
def evaluate (turns : Nat) (session : Session) (evaluation : Evaluation)
    (expression : ExpressionRef) : Answer Value × Evaluation × Session :=
  finishEvaluation turns session (evaluation.begin expression)

/-- Evaluates a single node from the results that the evaluation holds. There is
no value when the node has scheduled others instead. -/
def evaluateNode (turns : Nat) (session : Session) (evaluation : Evaluation) (node : Expression) :
    Answer (Option Value) × Evaluation × Session :=
  let (outcome, evaluation, heap) := evaluation.evaluateNode session.heap node
  let session := { session with heap }
  match outcome with
  | .value value => (.value (some value), evaluation, session)
  | .delegated => (.value none, evaluation, session)
  | .failed failure => (.failed failure, evaluation, session)
  | .endless => (.unfinished, evaluation, session)
  | .call request =>
      match session.call turns request.function request.arguments request.receiver with
      | (.value value, session) => (.value (some value), evaluation, session)
      | (.failed failure, session) =>
          (.failed (failure.withDefaultSpan request.span), evaluation, session)
      | (.unfinished, session) => (.unfinished, evaluation, session)

end Session

end ScriptEngine
