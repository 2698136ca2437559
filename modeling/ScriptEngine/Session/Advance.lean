import ScriptEngine.Session.Native

/-!
# The machine

A session runs in small turns: one node of an expression is evaluated, or one
value is handed to the statement that waits for it, or one statement is begun.
Calls and record blocks open a context above the one that they belong to, so no
turn runs another. An error takes down every context up to the one that nobody
waits for, which stays where it is.

A turn whose node compares values forever has no outcome that anything could
follow. The session says so and stays as it was before the turn.
-/

set_option autoImplicit false

namespace ScriptEngine

/-- What one turn of a session came to. -/
inductive Progress where
  | working
  /-- The innermost context has nothing left to run, and no other waits for it. -/
  | idle
  | failed (failure : RuntimeError)
  /-- The turn goes on forever. -/
  | endless

/-- The heap and the context after a statement got a value or was begun, and what
the context does next. -/
inductive StatementOutcome where
  | done (context : Context) (heap : Heap)
  | line (text : String) (context : Context) (heap : Heap)
  | evaluate (expression : ExpressionRef) (continuation : Continuation) (context : Context)
      (heap : Heap)
  | declare (name : String) (body : Option StatementRef) (span : Span) (context : Context)
      (heap : Heap)
  | failed (failure : RuntimeError) (context : Context) (heap : Heap)

namespace AssignOperator

/-- The value that an assignment stores. The old value is only looked at where
the operator needs it. -/
def combine (operator : AssignOperator) (heap : Heap)
    (current : Unit → Except RuntimeCause Value) (value : Value) :
    Except RuntimeCause (Value × Heap) :=
  match operator with
  | .set => .ok (heap.duplicate value)
  | .add =>
      match current () with
      | .ok held => heap.add held value
      | .error cause => .error cause
  | .subtract =>
      match current () with
      | .ok held => (held.subtract value).map fun difference => (difference, heap)
      | .error cause => .error cause

end AssignOperator

namespace Context

def bind (context : Context) (heap : Heap) (name : String) (value : Value) : Heap :=
  heap.setMember context.names name value

/-- Looks at the branches in order; the first condition has to be evaluated. -/
def tryBranches (context : Context) (heap : Heap)
    (branches : List (ExpressionRef × Option StatementRef))
    (otherwise : Option (Option StatementRef)) (following : Option StatementRef) :
    StatementOutcome :=
  match branches with
  | (condition, body) :: rest =>
      .evaluate condition (.branch body rest otherwise following) context heap
  | [] =>
      match otherwise with
      | some body => .done (context.enter body following none none) heap
      | none => .done context.proceed heap

/-- Begins the next pass of a `for` loop, or goes on after the loop. -/
def nextPass (context : Context) (heap : Heap) (loop : StatementRef) (item : String)
    (body : Option StatementRef) : StatementOutcome :=
  match context.iteration.bind (Iteration.next heap) with
  | some (value, iteration) =>
      .done ((context.setIteration (some iteration)).enterLoopBody loop body)
        (context.bind heap item value)
  | none => .done (context.setIteration none).proceed heap

def beginStatement (context : Context) (heap : Heap) (this : StatementRef)
    (statement : Statement) : StatementOutcome :=
  match statement with
  | .expression expression => .evaluate expression .discard context heap
  | .print [] => .line "" context.proceed heap
  | .print (first :: rest) => .evaluate first (.print "" rest) context heap
  | .assign (.name name) operator value span =>
      .evaluate value (.assignName name operator span) context heap
  | .assign (.member object name) operator value span =>
      .evaluate object (.assignMemberOf name operator value span) context heap
  | .assign (.element object index) operator value span =>
      .evaluate object (.assignElementOf index value operator span) context heap
  | .branch branches otherwise =>
      context.tryBranches heap branches otherwise (context.script.next this)
  | .whileLoop condition body => .evaluate condition (.whileLoop this body) context heap
  | .forLoop item iterable body span =>
      match context.iteration with
      | some _ => context.nextPass heap this item body
      | none => .evaluate iterable (.forLoop this item body span) context heap
  | .breakLoops count span =>
      match context.breakOut count with
      | (.ok (), context) => .done context heap
      | (.error failure, context) => .failed (.placed (.jump failure) span) context heap
  | .continueLoop span =>
      match context.nextLoopPass with
      | (.ok (), context) => .done context heap
      | (.error failure, context) => .failed (.placed (.jump failure) span) context heap
  | .returnValue none => .done (context.returnWith .none) heap
  | .returnValue (some value) => .evaluate value .returnValue context heap
  | .pass => .done context.proceed heap
  | .delete name span =>
      if (heap.record context.names).contains name then
        .done context.proceed (heap.eraseMember context.names name)
      else
        .failed (.placed (.invalidAccess name) span) context heap
  | .define name parameters body =>
      let (function, heap) :=
        heap.newFunction
          ⟨name, parameters, .script context.script body,
            some context.evaluation.chain.outermost⟩
      .done context.proceed (context.bind heap name (.function function))
  | .record name body span => .declare name body span context heap

/-- Hands the value of an expression to the statement that waits for it. -/
def deliver (context : Context) (heap : Heap) (continuation : Continuation) (value : Value) :
    StatementOutcome :=
  match continuation with
  | .discard => .done context.proceed heap
  | .print line rest =>
      let line := line ++ heap.text value
      match rest with
      | [] => .line line context.proceed heap
      | next :: rest => .evaluate next (.print (line ++ " ") rest) context heap
  | .assignName name operator span =>
      match operator.combine heap (fun _ => context.evaluation.lookup heap name) value with
      | .ok (stored, heap) => .done context.proceed (context.bind heap name stored)
      | .error cause => .failed (.placed cause span) context heap
  | .assignMemberOf name operator expression span =>
      match value.recordRef? with
      | some object =>
          .evaluate expression (.assignMember object name operator span) context heap
      | none => .failed (.placed (.nonRecord value) span) context heap
  | .assignMember object name operator span =>
      let current (_ : Unit) : Except RuntimeCause Value :=
        match heap.lookup object name with
        | some held => .ok held
        | none => .error (.undefinedMember name)
      match operator.combine heap current value with
      | .ok (stored, heap) => .done context.proceed (heap.setMember object name stored)
      | .error cause => .failed (.placed cause span) context heap
  | .assignElementOf index expression operator span =>
      .evaluate index (.assignElementAt value expression operator span) context heap
  | .assignElementAt object expression operator span =>
      .evaluate expression (.assignElement object value operator span) context heap
  | .assignElement object index operator span =>
      match operator.combine heap (fun _ => heap.element object index) value with
      | .ok (stored, heap) =>
          match heap.setElement object index stored with
          | .ok heap => .done context.proceed heap
          | .error cause => .failed (.placed cause span) context heap
      | .error cause => .failed (.placed cause span) context heap
  | .branch body rest otherwise following =>
      if heap.isTruthy value then .done (context.enter body following none none) heap
      else context.tryBranches heap rest otherwise following
  | .whileLoop loop body =>
      if heap.isTruthy value then .done (context.enterLoopBody loop body) heap
      else .done context.proceed heap
  | .forLoop loop item body span =>
      match Iteration.start value with
      | .ok iteration => (context.setIteration (some iteration)).nextPass heap loop item body
      | .error cause => .failed (.placed cause span) context heap
  | .returnValue => .done (context.returnWith value) heap

end Context

namespace Function

/-- Whether a call with this many arguments fits the function's parameters. -/
def checkArity (function : Function) (count : Nat) : Except RuntimeCause Unit :=
  if count = function.parameters.length then .ok ()
  else .error (.invalidArgumentCount count function.parameters.length)

end Function

def selfName : String := "self"

namespace Heap

/-- Binds parameters to copies of the arguments, from left to right. -/
def bindParameters (heap : Heap) (locals : RecordRef) :
    List String → List Value → Heap
  | parameter :: parameters, argument :: arguments =>
      let (copy, heap) := heap.duplicate argument
      (heap.setMember locals parameter copy).bindParameters locals parameters arguments
  | _, _ => heap

end Heap

namespace Session

/-- The context that runs a call of a script function: fresh locals with the
parameters and the receiver, and the function's globals behind them. -/
def callContext (session : Session) (script : Script) (entry : Option StatementRef)
    (parameters : List String) (globals : Option RecordRef) (arguments : List Value)
    (receiver : Option Value) : Context × Session :=
  let (locals, heap) := session.heap.newRecord .empty
  let heap := heap.bindParameters locals parameters arguments
  let heap :=
    match receiver with
    | some value => heap.setMember locals selfName value
    | none => heap
  let context := Context.functionCall script locals (globals.getD session.globals)
  (context.enter entry none none none, { session with heap })

/-- Takes an error from the innermost context, `top`, to the first context that
nobody waits for. Contexts on the way are reset and released; an error from a
call gets the place of the call unless it has one already. -/
def unwind (failure : RuntimeError) (top : Activation) (heap : Heap) :
    List Activation → RuntimeError × List Activation × Heap
  | [] => (failure, [{ top with activity := .resting }], heap)
  | caller :: below =>
      match caller.activity with
      | .calling _ _ span =>
          unwind (failure.withDefaultSpan span) caller (top.context.release heap) below
      | .declaring .. => unwind failure caller (top.context.release heap) below
      | _ => (failure, { top with activity := .resting } :: caller :: below, heap)

/-- Raises an error in the innermost context, `top`. -/
def raise (session : Session) (failure : RuntimeError) (top : Activation)
    (below : List Activation) : Progress × Session :=
  let (failure, stack, heap) := unwind failure top session.heap below
  (.failed failure, { session with stack, heap })

def settleStatement (session : Session) (outcome : StatementOutcome)
    (below : List Activation) : Progress × Session :=
  match outcome with
  | .done context heap =>
      (.working, { session with heap, stack := ⟨context, .resting⟩ :: below })
  | .line text context heap =>
      (.working,
        { session with heap, stack := ⟨context, .resting⟩ :: below }.writeLine text)
  | .evaluate expression continuation context heap =>
      let context := { context with evaluation := context.evaluation.begin expression }
      (.working,
        { session with heap, stack := ⟨context, .evaluating continuation⟩ :: below })
  | .declare name body span context heap =>
      let (members, heap) := heap.newRecord .empty
      let block := (Context.block context.script members context.visible).enter body none none none
      (.working,
        { session with
          heap
          stack := ⟨block, .resting⟩ :: ⟨context, .declaring name span⟩ :: below })
  | .failed failure context heap =>
      { session with heap }.raise failure ⟨context, .resting⟩ below

/-- Runs a call that the innermost context, `context`, asks for. -/
def beginCall (session : Session) (request : CallRequest) (scope : Option Value)
    (context : Context) (continuation : Continuation) (below : List Activation) :
    Progress × Session :=
  let function := session.heap.function request.function
  let top : Activation := ⟨context, .evaluating continuation⟩
  match function.checkArity request.arguments.length with
  | .error cause => session.raise (.placed cause request.span) top below
  | .ok () =>
      match function.body with
      | .native action =>
          let session := { session with stack := top :: below }
          match session.runNative action request.arguments request.receiver with
          | (.ok value, session) =>
              (.working,
                session.modifyContext fun context =>
                  { context with evaluation := context.evaluation.pushResult value scope })
          | (.error cause, session) =>
              session.raise (.placed cause request.span) top below
      | .script script entry =>
          let (callee, session) :=
            session.callContext script entry function.parameters function.globals
              request.arguments request.receiver
          (.working,
            { session with
              stack :=
                ⟨callee, .resting⟩ :: ⟨context, .calling continuation scope request.span⟩ ::
                  below })

/-- Hands the result of the finished context `top` to the one that waits for it. -/
def complete (session : Session) (top : Context) (caller : Activation)
    (below : List Activation) : Progress × Session :=
  let context := caller.context
  match caller.activity with
  | .calling continuation scope _ =>
      let value := top.returnValue.getD .none
      let context := { context with evaluation := context.evaluation.pushResult value scope }
      (.working,
        { session with
          heap := top.release session.heap
          stack := ⟨context, .evaluating continuation⟩ :: below })
  | .declaring name span =>
      match top.takeNames with
      | (.ok members, _) =>
          (.working,
            { session with
              heap := context.bind session.heap name (.record members)
              stack := ⟨context.proceed, .resting⟩ :: below })
      | (.error cause, top) =>
          { session with heap := top.release session.heap }.raise (.placed cause span)
            ⟨context, .resting⟩ below
  | _ => (.idle, session)

/-- Begins the next statement of the innermost context, which is at rest. Time
goes on by one statement, and is up if the limit is passed. -/
def beginNext (session : Session) (top : Activation) (below : List Activation) :
    Progress × Session :=
  match top.context.current with
  | none =>
      match below with
      | [] => (.idle, session)
      | caller :: below => session.complete top.context caller below
  | some this =>
      match top.context.script.statement? this with
      | none =>
          (.working,
            { session with stack := ⟨top.context.proceed, .resting⟩ :: below })
      | some statement =>
          session.settleStatement (top.context.beginStatement session.heap this statement) below

def advance (session : Session) : Progress × Session :=
  match session.stack with
  | [] =>
      let session := { session with now := session.now + 1 }
      match session.isOverdue with
      | some limit => (.failed (.unplaced (.timeLimit limit)), session)
      | none => (.idle, session)
  | top :: below =>
      match top.activity with
      | .resting =>
          let session := { session with now := session.now + 1 }
          match session.isOverdue with
          | some limit => session.raise (.unplaced (.timeLimit limit)) top below
          | none => session.beginNext top below
      | .evaluating continuation =>
          let (turn, evaluation, heap) := top.context.evaluation.advance session.heap
          let context := { top.context with evaluation }
          let evaluated := { session with heap }
          match turn with
          | .working =>
              (.working, { evaluated with stack := { top with context } :: below })
          | .call request scope => evaluated.beginCall request scope context continuation below
          | .finished value =>
              evaluated.settleStatement (context.deliver heap continuation value) below
          | .failed failure => evaluated.raise failure { top with context } below
          | .endless => (.endless, session)
      | .calling .. => (.idle, session)
      | .declaring .. => (.idle, session)

end Session

end ScriptEngine
