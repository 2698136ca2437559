import ScriptEngine.Proofs.Machine.Neutral
import ScriptEngine.Proofs.Value.Muted

/-!
# Turns of sessions whose functions do not suspend

Statements and turns do the same on a muted heap, up to the heap that they leave, which
is muted again. Nor do they depend on the time or the state of the session, unless the
time is limited or the script looks at the clock. So a turn of a muted session, at a time
and in a state of its own, is the muted turn of the session (`Session.advance_mutedAt`).
-/

set_option autoImplicit false

namespace ScriptEngine

/-!
## Statements
-/

/-- The outcome with its heap muted. -/
def StatementOutcome.muted : StatementOutcome → StatementOutcome
  | .done context heap => .done context heap.muted
  | .line text context heap => .line text context heap.muted
  | .evaluate expression continuation context heap =>
      .evaluate expression continuation context heap.muted
  | .declare name body span context heap => .declare name body span context heap.muted
  | .failed failure context heap => .failed failure context heap.muted

namespace Context

variable (context : Context) (heap : Heap)

theorem bind_muted (name : String) (value : Value) :
    context.bind heap.muted name value = (context.bind heap name value).muted := rfl

theorem tryBranches_muted (branches : List (ExpressionRef × Option StatementRef))
    (otherwise : Option (Option StatementRef)) (following : Option StatementRef) :
    context.tryBranches heap.muted branches otherwise following =
      (context.tryBranches heap branches otherwise following).muted := by
  unfold tryBranches
  split
  · rfl
  · split <;> rfl

theorem nextPass_muted (loop : StatementRef) (item : String) (body : Option StatementRef) :
    context.nextPass heap.muted loop item body =
      (context.nextPass heap loop item body).muted := by
  have same : Iteration.next heap.muted = Iteration.next heap := rfl
  unfold nextPass
  rw [same]
  cases context.iteration.bind (Iteration.next heap) <;> rfl

theorem beginStatement_muted (this : StatementRef) (statement : Statement) :
    context.beginStatement heap.muted this statement =
      (context.beginStatement heap this statement).muted := by
  unfold beginStatement
  split
  case h_7 => exact context.tryBranches_muted heap _ _ _
  case h_9 =>
    split
    · exact context.nextPass_muted heap _ _ _
    · rfl
  case h_10 | h_11 => split <;> rfl
  case h_15 name span =>
    rw [Heap.record_muted]
    by_cases held : (heap.record context.names).contains name
    · rw [if_pos held, if_pos held]
      rfl
    · rw [if_neg held, if_neg held]
      rfl
  case h_16 name parameters body =>
    have unmuted (function : Function) (script : Script) (entry : Option StatementRef)
        (body : function.body = .script script entry) := heap.newFunction_muted
      (Function.muted_of_script body)
    simp only [unmuted ⟨name, parameters, .script context.script body,
      some context.evaluation.chain.outermost⟩ _ _ rfl, bind_muted]
    rfl
  all_goals rfl

theorem deliver_muted (continuation : Continuation) (value : Value) :
    context.deliver heap.muted continuation value =
      (context.deliver heap continuation value).muted := by
  cases continuation with
  | discard | assignElementOf | assignElementAt | returnValue => rfl
  | assignMemberOf name operator expression span =>
      simp only [deliver]
      cases value.recordRef? <;> rfl
  | print line rest =>
      simp only [deliver, Heap.text_muted]
      split <;> rfl
  | assignName name operator span =>
      simp only [deliver, Evaluation.lookup_muted, Heap.combine_muted]
      cases operator.combine heap (fun _ => context.evaluation.lookup heap name) value <;> rfl
  | assignMember object name operator span =>
      simp only [deliver, Heap.lookup_muted, Heap.combine_muted]
      generalize operator.combine heap _ value = combined
      cases combined <;> rfl
  | assignElement object index operator span =>
      simp only [deliver, Heap.element_muted, Heap.combine_muted]
      cases operator.combine heap (fun _ => heap.element object index) value with
      | error cause => rfl
      | ok combined =>
          obtain ⟨stored, grown⟩ := combined
          simp only [Heap.muteBehind, Except.map, Heap.setElement_muted]
          cases grown.setElement object index stored <;> rfl
  | branch body rest otherwise following =>
      simp only [deliver, Heap.isTruthy_muted]
      split
      · rfl
      · exact context.tryBranches_muted heap _ _ _
  | whileLoop loop body =>
      simp only [deliver, Heap.isTruthy_muted]
      split <;> rfl
  | forLoop loop item body span =>
      unfold deliver
      cases Iteration.start value with
      | error cause => rfl
      | ok iteration => exact nextPass_muted _ heap loop item body

end Context

/-- Whether the call gets as far as asking for the time. -/
def CallRequest.asksTime (request : CallRequest) (heap : Heap) : Bool :=
  match (heap.function request.function).body with
  | .native .clock => ((heap.function request.function).checkArity request.arguments.length).isOk
  | _ => false

theorem CallRequest.asksTime_muted (request : CallRequest) (heap : Heap) :
    request.asksTime heap.muted = request.asksTime heap := by
  unfold asksTime
  simp only [Heap.function_muted, Function.checkArity_muted]
  cases body : (heap.function request.function).body with
  | native action =>
      rw [Function.muted_of_native body]
      cases action <;> rfl
  | script script entry => rw [Function.muted_of_script body, body]

/-!
## Turns
-/

namespace Session

/-- What a session holds, muted, at the time and in the state of another one. -/
def mutedAt (session clock : Session) : Session :=
  { session with
    heap := session.heap.muted
    state := clock.state
    now := clock.now
    startedAt := clock.startedAt
    suspendedAt := clock.suspendedAt }

/-- A turn that leaves the session muted, at the time and in the state of another one. -/
def muteTurn {α : Type} (clock : Session) (turn : α × Session) : α × Session :=
  (turn.1, turn.2.mutedAt clock)

variable (session clock : Session)

theorem unwind_muted (failure : RuntimeError) (top : Activation) (heap : Heap)
    (below : List Activation) :
    unwind failure top heap.muted below =
      ((unwind failure top heap below).1, (unwind failure top heap below).2.1,
        (unwind failure top heap below).2.2.muted) := by
  induction below generalizing failure top heap with
  | nil => rfl
  | cons caller below ih =>
      unfold unwind
      split
      · rw [heap.release_muted, ih]
      · rw [heap.release_muted, ih]
      · rfl

theorem raise_mutedAt (failure : RuntimeError) (top : Activation) (below : List Activation) :
    (session.mutedAt clock).raise failure top below =
      muteTurn clock (session.raise failure top below) := by
  simp only [raise, mutedAt, unwind_muted]
  rfl

theorem settleStatement_mutedAt (outcome : StatementOutcome) (below : List Activation) :
    (session.mutedAt clock).settleStatement outcome.muted below =
      muteTurn clock (session.settleStatement outcome below) := by
  cases outcome with
  | done | line | evaluate | declare => rfl
  | failed failure context heap =>
      exact raise_mutedAt { session with heap } clock failure ⟨context, .resting⟩ below

theorem namespaceValues_mutedAt (namespaces : List RecordRef) :
    (session.mutedAt clock).namespaceValues namespaces =
      muteTurn clock (session.namespaceValues namespaces) := by
  induction namespaces generalizing session with
  | nil => rfl
  | cons reference rest ih =>
      simp only [namespaceValues]
      by_cases global : reference = session.globals
      · have same : reference = (session.mutedAt clock).globals := global
        rw [if_pos global, if_pos same, ih session]
        rfl
      · have other : reference ≠ (session.mutedAt clock).globals := global
        rw [if_neg global, if_neg other]
        have again := ih
          (session.newArrayValue ((session.heap.record reference).names.map Value.text)).2
        exact congrArg
          (fun answer : List Value × Session =>
            ((session.newArrayValue ((session.heap.record reference).names.map Value.text)).1 ::
              answer.1, answer.2)) again

theorem report_mutedAt (arguments : List Value) (receiver : Option Value) :
    (session.mutedAt clock).report arguments receiver =
      muteTurn clock (session.report arguments receiver) := by
  have visible := session.namespaceValues_mutedAt clock session.namespaces
  have same : (session.mutedAt clock).namespaces = session.namespaces := rfl
  unfold report
  rw [same, visible]
  generalize session.namespaceValues session.namespaces = answer
  obtain ⟨namespaces, session⟩ := answer
  simp only [muteTurn, newArrayValue, mutedAt, Heap.newArray_muted, Heap.text_muted]
  rfl

theorem lengthOf_muted (heap : Heap) (value : Value) :
    lengthOf heap.muted value = lengthOf heap value := by
  cases value <;> rfl

/-- Apart from the clock, a native function that does not suspend does the same at
any time. -/
theorem runNative_mutedAt {action : NativeAction} (timeless : action ≠ .clock)
    (arguments : List Value) (receiver : Option Value) :
    (session.mutedAt clock).runNative action.muted arguments receiver =
      muteTurn clock (session.runNative action arguments receiver) := by
  cases action with
  | clock => exact absurd rfl timeless
  | typeName | number | rest => rfl
  | length =>
      simp only [NativeAction.muted, runNative, mutedAt, lengthOf_muted]
      rfl
  | text =>
      simp only [NativeAction.muted, runNative, mutedAt, Heap.text_muted]
      rfl
  | range | memberNames =>
      simp only [NativeAction.muted, runNative]
      split <;> rfl
  | hasMember =>
      simp only [NativeAction.muted, runNative]
      split
      · cases receiverRecord receiver with
        | error cause => rfl
        | ok record =>
            simp only [mutedAt, Heap.lookup_muted]
            rfl
      · rfl
  | suspend =>
      simp only [NativeAction.muted, runNative, suspend, muteTurn]
      split <;> rfl
  | report =>
      simp only [NativeAction.muted, runNative, report_mutedAt]
      rfl

theorem modifyContext_mutedAt (change : Context → Context) :
    (session.mutedAt clock).modifyContext change =
      (session.modifyContext change).mutedAt clock := by
  obtain ⟨state, stack, rest⟩ := session
  cases stack <;> rfl

theorem callContext_mutedAt (script : Script) (entry : Option StatementRef)
    (parameters : List String) (globals : Option RecordRef) (arguments : List Value)
    (receiver : Option Value) :
    (session.mutedAt clock).callContext script entry parameters globals arguments receiver =
      muteTurn clock
        (session.callContext script entry parameters globals arguments receiver) := by
  have opened := (session.heap.newRecord .empty).2.bindParameters_muted
    (session.heap.newRecord .empty).1 parameters arguments
  simp only [callContext, mutedAt, Heap.newRecord_muted, opened]
  cases receiver <;> rfl

theorem beginCall_mutedAt {request : CallRequest}
    (timeless : request.asksTime session.heap = false)
    (scope : Option Value) (context : Context) (continuation : Continuation)
    (below : List Activation) :
    (session.mutedAt clock).beginCall request scope context continuation below =
      muteTurn clock (session.beginCall request scope context continuation below) := by
  have called : (session.mutedAt clock).heap.function request.function =
      (session.heap.function request.function).muted := session.heap.function_muted _
  simp only [beginCall, called, Function.checkArity_muted]
  split
  · exact session.raise_mutedAt clock _ _ below
  · next fits =>
      cases body : (session.heap.function request.function).body with
      | native action =>
          have other : action ≠ .clock := by
            rintro rfl
            simp only [CallRequest.asksTime, body, fits] at timeless
            cases timeless
          have ran := runNative_mutedAt
            { session with stack := ⟨context, .evaluating continuation⟩ :: below } clock other
            request.arguments request.receiver
          rw [Function.muted_of_native body]
          simp only [mutedAt] at ran ⊢
          rw [ran]
          generalize Session.runNative _ action _ _ = answer
          obtain ⟨answer, after⟩ := answer
          cases answer with
          | ok value => exact congrArg (Prod.mk _) (after.modifyContext_mutedAt clock _)
          | error cause => exact after.raise_mutedAt clock _ _ below
      | script script entry =>
          rw [Function.muted_of_script body, body]
          simp only [callContext_mutedAt]
          rfl

theorem complete_mutedAt (top : Context) (caller : Activation) (below : List Activation) :
    (session.mutedAt clock).complete top caller below =
      muteTurn clock (session.complete top caller below) := by
  obtain ⟨context, activity⟩ := caller
  cases activity with
  | resting | evaluating => rfl
  | calling continuation scope span =>
      have released := session.heap.release_muted top
      simp only [complete, mutedAt, released]
      rfl
  | declaring name span =>
      simp only [complete]
      split
      · rfl
      · next cause top _ =>
          have released := session.heap.release_muted top
          have raised := raise_mutedAt { session with heap := top.release session.heap } clock
            (.placed cause span) ⟨context, .resting⟩ below
          simp only [mutedAt, released] at raised ⊢
          exact raised

theorem beginNext_mutedAt (top : Activation) (below : List Activation) :
    (session.mutedAt clock).beginNext top below =
      muteTurn clock (session.beginNext top below) := by
  unfold beginNext
  split
  · split
    · rfl
    · exact session.complete_mutedAt clock _ _ _
  · split
    · rfl
    · have begun := top.context.beginStatement_muted session.heap
      simp only [mutedAt, begun]
      exact session.settleStatement_mutedAt clock _ below

/-- Whether the session is about to look at the clock. -/
def callsClock (session : Session) : Bool :=
  match session.stack with
  | ⟨context, .evaluating _⟩ :: _ =>
      match context.evaluation.advance session.heap with
      | (.call request _, _, heap) => request.asksTime heap
      | _ => false
  | _ => false

theorem callsClock_mutedAt : (session.mutedAt clock).callsClock = session.callsClock := by
  have same : (session.mutedAt clock).stack = session.stack := rfl
  unfold callsClock
  rw [same]
  split
  · next context _ _ _ =>
      have evaluated : context.evaluation.advance (session.mutedAt clock).heap = _ :=
        context.evaluation.advance_muted session.heap
      rw [evaluated]
      generalize context.evaluation.advance session.heap = answer
      obtain ⟨turn, evaluation, heap⟩ := answer
      cases turn with
      | call request scope => exact request.asksTime_muted heap
      | working | finished | failed | endless => rfl
  · rfl

theorem isOverdue_of_unlimited {session : Session} (unlimited : session.timeLimit = none) :
    session.isOverdue = none := by
  simp only [isOverdue, unlimited]

/-- A turn of a muted session is the muted turn, a little later. -/
theorem advance_mutedAt (unlimited : session.timeLimit = none)
    (timeless : session.callsClock = false) :
    ∃ later : Session, later.state = clock.state ∧
      (session.mutedAt clock).advance = muteTurn later session.advance := by
  have same : (session.mutedAt clock).stack = session.stack := rfl
  have mutedUnlimited : (session.mutedAt clock).timeLimit = none := unlimited
  unfold callsClock at timeless
  unfold advance
  rw [same]
  cases stack : session.stack with
  | nil =>
      refine ⟨{ clock with now := clock.now + 1 }, rfl, ?_⟩
      simp (disch := first | exact unlimited | exact mutedUnlimited) only [isOverdue_of_unlimited]
      rfl
  | cons top below =>
      obtain ⟨context, activity⟩ := top
      cases activity with
      | calling | declaring => exact ⟨clock, rfl, rfl⟩
      | resting =>
          refine ⟨{ clock with now := clock.now + 1 }, rfl, ?_⟩
          simp (disch := first | exact unlimited | exact mutedUnlimited) only
            [isOverdue_of_unlimited]
          exact beginNext_mutedAt
            { session with now := session.now + 1, stack := ⟨context, .resting⟩ :: below }
            { clock with now := clock.now + 1 } _ below
      | evaluating continuation =>
          refine ⟨clock, rfl, ?_⟩
          have evaluated : context.evaluation.advance (session.mutedAt clock).heap = _ :=
            context.evaluation.advance_muted session.heap
          rw [stack] at timeless
          dsimp only at timeless ⊢
          rw [evaluated]
          generalize context.evaluation.advance session.heap = answer at timeless ⊢
          obtain ⟨turn, evaluation, heap⟩ := answer
          cases turn with
          | working | endless => rfl
          | call request scope =>
              exact beginCall_mutedAt { session with heap } clock timeless _ _ _ _
          | finished value =>
              have delivered := Context.deliver_muted { context with evaluation } heap
                continuation value
              dsimp only
              rw [delivered]
              exact settleStatement_mutedAt { session with heap } clock _ below
          | failed failure => exact raise_mutedAt { session with heap } clock failure _ below

end Session

end ScriptEngine
