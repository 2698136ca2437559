import ScriptEngine.Proofs.Evaluation.Turn
import ScriptEngine.Proofs.Grammar.Growth
import ScriptEngine.Proofs.Value.Failure
import ScriptEngine.Session.Host

/-!
# Invariants that speak about one context at a time

An invariant is local when it says something about every function of the heap and
about every context together with what it is in the middle of. It is enough to
look at what a single context can do (`LocalInvariant.KeptByTurns`): the turns of a
session, which move contexts around, open new ones and take down several at once,
then keep it as well (`LocalInvariant.advance_fine`).
-/

set_option autoImplicit false

namespace ScriptEngine

/-- An invariant of functions and contexts, together with what it says about
errors, about how the frames of a context change, and about new frames. -/
structure LocalInvariant where
  FunctionFine : Function → Prop
  Fine : Context → Activity → Prop
  ErrorFine : RuntimeCause → Prop
  Moves : List Frame → List Frame → Prop
  Fresh : List Frame → Prop

namespace LocalInvariant

/-- All functions of the heap are fine. -/
def HeapFine (invariant : LocalInvariant) (heap : Heap) : Prop :=
  ∀ function ∈ heap.functions, invariant.FunctionFine function

/-- All contexts, and all functions of the heap, are fine. -/
structure SessionFine (invariant : LocalInvariant) (session : Session) : Prop where
  heap : invariant.HeapFine session.heap
  stack : ∀ activation ∈ session.stack, invariant.Fine activation.context activation.activity

/-- What a statement came to is fine, if it began with the given frames. -/
def OutcomeFine (invariant : LocalInvariant) (frames : List Frame) : StatementOutcome → Prop
  | .done context heap =>
      invariant.HeapFine heap ∧ invariant.Fine context .resting ∧
        invariant.Moves frames context.frames
  | .line _ context heap =>
      invariant.HeapFine heap ∧ invariant.Fine context .resting ∧
        invariant.Moves frames context.frames
  | .evaluate expression continuation context heap =>
      invariant.HeapFine heap ∧
        invariant.Fine { context with evaluation := context.evaluation.begin expression }
          (.evaluating continuation) ∧
        invariant.Moves frames context.frames
  | .declare name body span context heap =>
      invariant.HeapFine heap ∧ invariant.Fine context (.declaring name span) ∧
        invariant.Moves frames context.frames ∧ ∀ members,
          let block := (Context.block context.script members context.visible).enter body none none
            none
          invariant.Fine block .resting ∧ invariant.Fresh block.frames
  | .failed failure context heap =>
      invariant.HeapFine heap ∧ invariant.Fine context .resting ∧
        invariant.Moves frames context.frames ∧ invariant.ErrorFine failure.cause

/-- What a single context can do in a turn keeps the invariant. -/
structure KeptByTurns (invariant : LocalInvariant) : Prop where
  ordinary {cause : RuntimeCause} (ordinary : cause.Ordinary) : invariant.ErrorFine cause
  native {function : Function} (isNative : function.isNative = true) :
    invariant.FunctionFine function
  stays (frames : List Frame) : invariant.Moves frames frames
  /-- A context may be left in the middle of whatever it does. -/
  abandons {context : Context} {activity : Activity} {evaluation : Evaluation}
    (fine : invariant.Fine context activity) (kept : context.evaluation.KeepsPlace evaluation) :
    invariant.Fine { context with evaluation } .resting
  begins {context : Context} {heap : Heap} {this : StatementRef} {statement : Statement}
    (fine : invariant.Fine context .resting) (current : context.current = some this)
    (found : context.script.statement? this = some statement) (heapFine : invariant.HeapFine heap) :
    invariant.OutcomeFine context.frames (context.beginStatement heap this statement)
  skips {context : Context} {this : StatementRef} (fine : invariant.Fine context .resting)
    (current : context.current = some this) (missing : context.script.statement? this = none) :
    invariant.Fine context.proceed .resting ∧ invariant.Moves context.frames context.proceed.frames
  works {context : Context} {continuation : Continuation} {heap grown : Heap}
    {after : Evaluation} (fine : invariant.Fine context (.evaluating continuation))
    (turn : context.evaluation.advance heap = (.working, after, grown)) :
    invariant.Fine { context with evaluation := after } (.evaluating continuation)
  calls {context : Context} {continuation : Continuation} {heap grown : Heap}
    {after : Evaluation} {request : CallRequest} {scope : Option Value}
    (fine : invariant.Fine context (.evaluating continuation))
    (turn : context.evaluation.advance heap = (.call request scope, after, grown)) :
    invariant.Fine { context with evaluation := after }
      (.calling continuation scope request.span)
  fails {context : Context} {continuation : Continuation} {heap grown : Heap}
    {after : Evaluation} {failure : RuntimeError}
    (fine : invariant.Fine context (.evaluating continuation))
    (turn : context.evaluation.advance heap = (.failed failure, after, grown)) :
    invariant.ErrorFine failure.cause
  delivers {context : Context} {continuation : Continuation} {heap grown : Heap}
    {after : Evaluation} {value : Value}
    (fine : invariant.Fine context (.evaluating continuation))
    (turn : context.evaluation.advance heap = (.finished value, after, grown))
    (heapFine : invariant.HeapFine grown) :
    invariant.OutcomeFine context.frames
      ({ context with evaluation := after }.deliver grown continuation value)
  returns {context : Context} {continuation : Continuation} {scope : Option Value} {span : Span}
    (fine : invariant.Fine context (.calling continuation scope span)) (value : Value) :
    invariant.Fine
      { context with evaluation := context.evaluation.pushResult value scope }
      (.evaluating continuation)
  declares {context : Context} {name : String} {span : Span}
    (fine : invariant.Fine context (.declaring name span)) :
    invariant.Fine context.proceed .resting ∧ invariant.Moves context.frames context.proceed.frames
  enters {function : Function} {script : Script} {entry : Option StatementRef}
    (functionFine : invariant.FunctionFine function) (body : function.body = .script script entry)
    (locals globals : RecordRef) :
    let context := (Context.functionCall script locals globals).enter entry none none none
    invariant.Fine context .resting ∧ invariant.Fresh context.frames

/-- So does what a host can do with a context. -/
structure Kept (invariant : LocalInvariant) : Prop extends invariant.KeptByTurns where
  runs {script : Script} (parsed : script.Parsed) (globals : RecordRef) :
    let context := (Context.base script globals).enter script.first none none none
    invariant.Fine context .resting ∧ invariant.Fresh context.frames
  breaks {context : Context} (fine : invariant.Fine context .resting) (count : Nat) :
    invariant.Fine (context.breakOut count).2 .resting ∧
      invariant.Moves context.frames (context.breakOut count).2.frames
  continues {context : Context} (fine : invariant.Fine context .resting) :
    invariant.Fine context.nextLoopPass.2 .resting ∧
      invariant.Moves context.frames context.nextLoopPass.2.frames
  resets {context : Context} (fine : invariant.Fine context .resting) :
    invariant.Fine context.reset .resting ∧ invariant.Moves context.frames context.reset.frames

/-- How a stack of contexts changes: some contexts are taken off, the next one
perhaps moves, and new ones are put on. -/
inductive StackMoves (invariant : LocalInvariant) : List Activation → List Activation → Prop where
  | replaces (popped opened below : List Activation)
      (fresh : ∀ activation ∈ opened, invariant.Fresh activation.context.frames) :
      StackMoves invariant (popped ++ below) (opened ++ below)
  | moves (popped opened below : List Activation) (old new : Activation)
      (moves : invariant.Moves old.context.frames new.context.frames)
      (fresh : ∀ activation ∈ opened, invariant.Fresh activation.context.frames) :
      StackMoves invariant (popped ++ old :: below) (opened ++ new :: below)

variable {invariant : LocalInvariant}

theorem StackMoves.stays (stack : List Activation) : invariant.StackMoves stack stack :=
  StackMoves.replaces [] [] stack (List.forall_mem_nil _)

theorem StackMoves.top {old new : Activation} (below : List Activation)
    (moves : invariant.Moves old.context.frames new.context.frames) :
    invariant.StackMoves (old :: below) (new :: below) :=
  StackMoves.moves [] [] below old new moves (List.forall_mem_nil _)

theorem StackMoves.push {old new opened : Activation} (below : List Activation)
    (moves : invariant.Moves old.context.frames new.context.frames)
    (fresh : invariant.Fresh opened.context.frames) :
    invariant.StackMoves (old :: below) (opened :: new :: below) :=
  StackMoves.moves [] [opened] below old new moves (List.forall_mem_singleton.mpr fresh)

theorem StackMoves.pop {old new : Activation} (popped below : List Activation)
    (moves : invariant.Moves old.context.frames new.context.frames) :
    invariant.StackMoves (popped ++ old :: below) (new :: below) :=
  StackMoves.moves popped [] below old new moves (List.forall_mem_nil _)

theorem StackMoves.under {before after : List Activation}
    (moves : invariant.StackMoves before after) (top : Activation) :
    invariant.StackMoves (top :: before) after := by
  cases moves with
  | replaces popped opened below fresh => exact .replaces (top :: popped) opened below fresh
  | moves popped opened below old new moves fresh =>
      exact .moves (top :: popped) opened below old new moves fresh

theorem HeapFine.of_keeps {before after : Heap} (fine : invariant.HeapFine before)
    (kept : after.functions = before.functions) : invariant.HeapFine after := by
  intro function member
  exact fine function (kept ▸ member)

theorem HeapFine.newFunction {heap : Heap} (fine : invariant.HeapFine heap) {function : Function}
    (functionFine : invariant.FunctionFine function) :
    invariant.HeapFine (heap.newFunction function).2 := by
  intro other member
  rcases Array.mem_push.mp member with old | rfl
  · exact fine other old
  · exact functionFine

theorem HeapFine.function {heap : Heap} (fine : invariant.HeapFine heap) (kept : invariant.KeptByTurns)
    (reference : FunctionRef) : invariant.FunctionFine (heap.function reference) := by
  unfold Heap.function
  cases found : heap.functions[reference.address]? with
  | none => exact kept.native rfl
  | some function => exact fine function (Array.mem_of_getElem? found)

end LocalInvariant

/-!
## What changes no function
-/

theorem Heap.functions_setMember (heap : Heap) (record : RecordRef) (name : String)
    (value : Value) : (heap.setMember record name value).functions = heap.functions := rfl

theorem Context.functions_release (context : Context) (heap : Heap) :
    (context.release heap).functions = heap.functions := by
  unfold release
  split <;> rfl

theorem Heap.functions_bindParameters (heap : Heap) (locals : RecordRef)
    (parameters : List String) (arguments : List Value) :
    (heap.bindParameters locals parameters arguments).functions = heap.functions := by
  induction parameters generalizing heap arguments with
  | nil => rfl
  | cons parameter parameters ih =>
      cases arguments with
      | nil => rfl
      | cons argument arguments =>
          simp only [bindParameters]
          rw [ih, functions_setMember, (heap.keepsObjects_duplicate argument).functions]

theorem AssignOperator.keepsObjects_combine {operator : AssignOperator} {heap grown : Heap}
    {current : Unit → Except RuntimeCause Value} {value stored : Value}
    (combined : operator.combine heap current value = .ok (stored, grown)) :
    heap.KeepsObjects grown := by
  cases operator with
  | set =>
      have copied := heap.keepsObjects_duplicate value
      rw [Except.ok.inj combined] at copied
      exact copied
  | add =>
      simp only [combine] at combined
      split at combined
      · exact Heap.keepsObjects_add combined
      · cases combined
  | subtract =>
      simp only [combine] at combined
      split at combined
      · next held _ =>
          generalize held.subtract value = difference at combined
          cases difference <;> cases combined
          exact .refl heap
      · cases combined

theorem Heap.functions_setElement {heap grown : Heap} {object index value : Value}
    (written : heap.setElement object index value = .ok grown) :
    grown.functions = heap.functions := by
  unfold setElement at written
  split at written
  · split at written <;> cases written
    rfl
  · cases written
    rfl
  · cases written

theorem Context.script_of_advance {context : Context} {heap grown : Heap} {turn : Evaluation.Turn}
    {after : Evaluation} (taken : context.evaluation.advance heap = (turn, after, grown)) :
    ({ context with evaluation := after } : Context).script = context.script := by
  have place := (context.evaluation.advance_keeps heap).1.script
  rw [taken] at place
  exact place

namespace Session

theorem callContext_keeps (session : Session) (script : Script) (entry : Option StatementRef)
    (parameters : List String) (globals : Option RecordRef) (arguments : List Value)
    (receiver : Option Value) :
    ∃ locals bound, session.callContext script entry parameters globals arguments receiver =
      ((Context.functionCall script locals (globals.getD session.globals)).enter entry none none
        none, { session with heap := bound }) ∧ bound.functions = session.heap.functions := by
  refine ⟨_, _, rfl, ?_⟩
  cases receiver with
  | none => exact Heap.functions_bindParameters _ _ _ _
  | some value =>
      rw [Heap.functions_setMember]
      exact Heap.functions_bindParameters _ _ _ _

theorem modifyContext_of_stack {session : Session} {top : Activation} {below : List Activation}
    (stack : session.stack = top :: below) (change : Context → Context) :
    session.modifyContext change =
      { session with stack := { top with context := change top.context } :: below } := by
  simp only [modifyContext, stack]

/-- What a native function leaves alone. -/
structure KeepsContexts (before after : Session) : Prop where
  stack : after.stack = before.stack
  functions : after.heap.functions = before.heap.functions

theorem namespaceValues_keeps (session : Session) (namespaces : List RecordRef) :
    session.KeepsContexts (session.namespaceValues namespaces).2 := by
  induction namespaces generalizing session with
  | nil => exact ⟨rfl, rfl⟩
  | cons reference rest ih =>
      simp only [namespaceValues]
      split
      · exact ih session
      · have later := ih (session.newArrayValue
          ((session.heap.record reference).names.map Value.text)).2
        exact ⟨later.stack, later.functions⟩

theorem runNative_keeps (session : Session) (action : NativeAction) (arguments : List Value)
    (receiver : Option Value) :
    session.KeepsContexts (session.runNative action arguments receiver).2 := by
  cases action with
  | length | typeName | text | number | clock | rest => exact ⟨rfl, rfl⟩
  | range | memberNames | hasMember =>
      simp only [runNative]
      split <;> exact ⟨rfl, rfl⟩
  | suspend =>
      simp only [runNative, suspend]
      split <;> exact ⟨rfl, rfl⟩
  | report =>
      have reported := session.namespaceValues_keeps session.namespaces
      exact ⟨reported.stack, reported.functions⟩

end Session

/-!
## The turns of a session
-/

namespace LocalInvariant

variable {invariant : LocalInvariant}

/-- What a turn may come to. -/
structure TurnFine (invariant : LocalInvariant) (stack : List Activation)
    (answer : Progress × Session) : Prop where
  session : invariant.SessionFine answer.2
  error : ∀ failure, answer.1 = .failed failure → invariant.ErrorFine failure.cause
  moves : invariant.StackMoves stack answer.2.stack

private theorem TurnFine.working {stack : List Activation} {session : Session}
    (fine : invariant.SessionFine session) (moves : invariant.StackMoves stack session.stack) :
    invariant.TurnFine stack (.working, session) :=
  ⟨fine, fun _ same => Progress.noConfusion same, moves⟩

private theorem TurnFine.idle {stack : List Activation} {session : Session}
    (fine : invariant.SessionFine session) (moves : invariant.StackMoves stack session.stack) :
    invariant.TurnFine stack (.idle, session) :=
  ⟨fine, fun _ same => Progress.noConfusion same, moves⟩

private theorem TurnFine.endless {stack : List Activation} {session : Session}
    (fine : invariant.SessionFine session) (moves : invariant.StackMoves stack session.stack) :
    invariant.TurnFine stack (.endless, session) :=
  ⟨fine, fun _ same => Progress.noConfusion same, moves⟩

/-- An error takes contexts down and changes none of those that stay. -/
theorem unwind_keeps (failure : RuntimeError) (top : Activation) (heap : Heap)
    (below : List Activation) :
    ∃ unwound popped rest, ∃ (old new : Activation) (left : Heap),
      Session.unwind failure top heap below = (unwound, new :: rest, left) ∧
      unwound.cause = failure.cause ∧ top :: below = popped ++ old :: rest ∧
      new.context = old.context ∧ new.activity = .resting ∧ left.functions = heap.functions := by
  induction below generalizing failure top heap with
  | nil => exact ⟨_, [], [], top, _, _, rfl, rfl, rfl, rfl, rfl, rfl⟩
  | cons caller below ih =>
      have released := top.context.functions_release heap
      unfold Session.unwind
      split
      · next span _ =>
          obtain ⟨unwound, popped, rest, old, new, left, found, cause, stack, same, rested, kept⟩ :=
            ih (failure.withDefaultSpan span) caller (top.context.release heap)
          refine ⟨unwound, top :: popped, rest, old, new, left, found, cause, ?_, same, rested,
            kept.trans released⟩
          rw [stack, List.cons_append]
      · obtain ⟨unwound, popped, rest, old, new, left, found, cause, stack, same, rested, kept⟩ :=
          ih failure caller (top.context.release heap)
        refine ⟨unwound, top :: popped, rest, old, new, left, found, cause, ?_, same, rested,
          kept.trans released⟩
        rw [stack, List.cons_append]
      · exact ⟨_, [], caller :: below, top, _, _, rfl, rfl, rfl, rfl, rfl, rfl⟩

private theorem raise_fine (kept : invariant.KeptByTurns) {session : Session} {failure : RuntimeError}
    {origin top : Activation} {below : List Activation} {activity : Activity}
    (heap : invariant.HeapFine session.heap) (fine : invariant.Fine top.context activity)
    (belowFine : ∀ activation ∈ below, invariant.Fine activation.context activation.activity)
    (moves : invariant.Moves origin.context.frames top.context.frames)
    (error : invariant.ErrorFine failure.cause) :
    invariant.TurnFine (origin :: below) (session.raise failure top below) := by
  obtain ⟨unwound, popped, rest, old, new, left, found, cause, stack, same, rested, heapKept⟩ :=
    unwind_keeps failure top session.heap below
  have abandoned {activity : Activity} (oldFine : invariant.Fine old.context activity) :
      invariant.Fine new.context new.activity := by
    rw [same, rested]
    exact kept.abandons oldFine ⟨rfl, rfl⟩
  simp only [Session.raise, found]
  have errorFine : ∀ failure, Progress.failed unwound = .failed failure →
      invariant.ErrorFine failure.cause := by
    rintro _ ⟨⟩
    exact cause ▸ error
  cases popped with
  | nil =>
      obtain ⟨rfl, rfl⟩ := List.cons.inj stack
      exact ⟨⟨heap.of_keeps heapKept, List.forall_mem_cons.mpr ⟨abandoned fine, belowFine⟩⟩,
        errorFine, .top below (by rw [same]; exact moves)⟩
  | cons first popped =>
      obtain ⟨rfl, rfl⟩ := List.cons.inj stack
      obtain ⟨oldFine, restFine⟩ := List.forall_mem_cons.mp
        fun activation member => belowFine activation (List.mem_append_right popped member)
      exact ⟨⟨heap.of_keeps heapKept, List.forall_mem_cons.mpr ⟨abandoned oldFine, restFine⟩⟩,
        errorFine, .pop (origin :: popped) rest (by rw [same]; exact kept.stays _)⟩

private theorem settleStatement_fine (kept : invariant.KeptByTurns) {session : Session}
    {origin : Activation} {below : List Activation} {outcome : StatementOutcome}
    (belowFine : ∀ activation ∈ below, invariant.Fine activation.context activation.activity)
    (outcomeFine : invariant.OutcomeFine origin.context.frames outcome) :
    invariant.TurnFine (origin :: below) (session.settleStatement outcome below) := by
  cases outcome with
  | done context heap | line text context heap =>
      obtain ⟨heapFine, fine, moves⟩ := outcomeFine
      exact .working ⟨heapFine, List.forall_mem_cons.mpr ⟨fine, belowFine⟩⟩ (.top below moves)
  | evaluate expression continuation context heap =>
      obtain ⟨heapFine, fine, moves⟩ := outcomeFine
      exact .working ⟨heapFine, List.forall_mem_cons.mpr ⟨fine, belowFine⟩⟩ (.top below moves)
  | declare name body span context heap =>
      obtain ⟨heapFine, fine, moves, opened⟩ := outcomeFine
      obtain ⟨blockFine, fresh⟩ := opened (heap.newRecord .empty).1
      refine .working ⟨heapFine, List.forall_mem_cons.mpr ⟨blockFine, ?_⟩⟩ ?_
      · exact List.forall_mem_cons.mpr ⟨fine, belowFine⟩
      · exact .push below moves fresh
  | failed failure context heap =>
      obtain ⟨heapFine, fine, moves, error⟩ := outcomeFine
      exact raise_fine kept heapFine fine belowFine moves error

private theorem beginCall_fine (kept : invariant.KeptByTurns) {session : Session} {origin : Activation}
    {below : List Activation} {request : CallRequest} {scope : Option Value} {context : Context}
    {continuation : Continuation} (heapFine : invariant.HeapFine session.heap)
    (belowFine : ∀ activation ∈ below, invariant.Fine activation.context activation.activity)
    (fine : invariant.Fine context (.calling continuation scope request.span))
    (same : origin.context.frames = context.frames) :
    invariant.TurnFine (origin :: below)
      (session.beginCall request scope context continuation below) := by
  have moves : invariant.Moves origin.context.frames context.frames := same ▸ kept.stays _
  unfold Session.beginCall
  dsimp only
  split
  · next cause refused =>
      exact raise_fine kept heapFine fine belowFine moves
        (kept.ordinary (Function.ordinary_checkArity _ _ _ refused))
  · split
    · next action _ =>
        have ordinary := Session.ordinary_runNative
          { session with stack := ⟨context, .evaluating continuation⟩ :: below } action
          request.arguments request.receiver
        have native := Session.runNative_keeps
          { session with stack := ⟨context, .evaluating continuation⟩ :: below } action
          request.arguments request.receiver
        generalize Session.runNative _ action _ _ = answer at ordinary native
        obtain ⟨answer, after⟩ := answer
        obtain ⟨stack, functions⟩ := native
        have afterHeap : invariant.HeapFine after.heap := heapFine.of_keeps functions
        cases answer with
        | ok value =>
            have moved := Session.modifyContext_of_stack stack fun context =>
              { context with evaluation := context.evaluation.pushResult value scope }
            simp only [moved]
            exact .working
              ⟨afterHeap, List.forall_mem_cons.mpr ⟨kept.returns fine value, belowFine⟩⟩
              (.top below moves)
        | error cause =>
            exact raise_fine kept afterHeap fine belowFine moves
              (kept.ordinary (ordinary cause rfl))
    · next script entry body =>
        obtain ⟨locals, bound, opened, functions⟩ := session.callContext_keeps script entry
          (session.heap.function request.function).parameters
          (session.heap.function request.function).globals request.arguments request.receiver
        obtain ⟨calleeFine, fresh⟩ := kept.enters (heapFine.function kept request.function) body
          locals ((session.heap.function request.function).globals.getD session.globals)
        simp only [opened]
        refine .working
          ⟨heapFine.of_keeps functions, List.forall_mem_cons.mpr ⟨calleeFine, ?_⟩⟩ ?_
        · exact List.forall_mem_cons.mpr ⟨fine, belowFine⟩
        · exact .push below moves fresh

private theorem complete_fine (kept : invariant.KeptByTurns) {session : Session} {top caller : Activation}
    {below : List Activation} (fine : invariant.SessionFine session)
    (stack : session.stack = top :: caller :: below) :
    invariant.TurnFine (top :: caller :: below) (session.complete top.context caller below) := by
  have callerFine : invariant.Fine caller.context caller.activity :=
    fine.stack caller (stack ▸ by simp)
  have belowFine : ∀ activation ∈ below,
      invariant.Fine activation.context activation.activity :=
    fun activation member => fine.stack activation (stack ▸ by simp [member])
  obtain ⟨context, activity⟩ := caller
  have released := top.context.functions_release session.heap
  unfold Session.complete
  dsimp only at callerFine ⊢
  split
  · exact .working
      ⟨fine.heap.of_keeps released,
        List.forall_mem_cons.mpr ⟨kept.returns callerFine _, belowFine⟩⟩
      (.pop [top] below (kept.stays _))
  · next name span =>
    obtain ⟨proceeded, moves⟩ := kept.declares callerFine
    unfold Context.takeNames
    split
    · next members _ taken =>
        exact .working ⟨fine.heap, List.forall_mem_cons.mpr ⟨proceeded, belowFine⟩⟩
          (.pop [top] below moves)
    · next cause left refused =>
        split at refused
        · cases refused
        · cases refused
          have raised : invariant.TurnFine (⟨context, .declaring name span⟩ :: below)
              ({ session with heap := top.context.release session.heap }.raise
                (.placed .borrowedNamespace span) ⟨context, .resting⟩ below) :=
            raise_fine kept (fine.heap.of_keeps released) callerFine belowFine
              (kept.stays context.frames) (kept.ordinary trivial)
          exact ⟨raised.session, raised.error, raised.moves.under top⟩
  · exact .idle fine (stack ▸ .stays _)

private theorem beginNext_fine (kept : invariant.KeptByTurns) {session : Session} {top : Activation}
    {below : List Activation} (fine : invariant.SessionFine session)
    (stack : session.stack = top :: below) (resting : top.activity = .resting) :
    invariant.TurnFine (top :: below) (session.beginNext top below) := by
  have topFine : invariant.Fine top.context .resting :=
    resting ▸ fine.stack top (stack ▸ List.mem_cons_self)
  have belowFine : ∀ activation ∈ below,
      invariant.Fine activation.context activation.activity :=
    fun activation member => fine.stack activation (stack ▸ List.mem_cons_of_mem top member)
  unfold Session.beginNext
  split
  · cases below with
    | nil => exact .idle fine (stack ▸ .stays _)
    | cons caller below => exact complete_fine kept fine stack
  · next this current =>
      split
      · next missing =>
          obtain ⟨skipped, moves⟩ := kept.skips topFine current missing
          exact .working ⟨fine.heap, List.forall_mem_cons.mpr ⟨skipped, belowFine⟩⟩
            (.top below moves)
      · next statement found =>
          exact settleStatement_fine kept belowFine
            (kept.begins topFine current found fine.heap)

theorem advance_fine (kept : invariant.KeptByTurns) {session : Session}
    (fine : invariant.SessionFine session) : invariant.TurnFine session.stack session.advance := by
  unfold Session.advance
  split
  · next stack =>
      have none : invariant.SessionFine { session with now := session.now + 1 } :=
        ⟨fine.heap, fine.stack⟩
      dsimp only
      split
      · refine ⟨none, ?_, .stays _⟩
        rintro _ ⟨⟩
        exact kept.ordinary trivial
      · exact .idle none (.stays _)
  · next top below stack =>
      have topFine : invariant.Fine top.context top.activity :=
        fine.stack top (stack ▸ List.mem_cons_self)
      have belowFine : ∀ activation ∈ below,
          invariant.Fine activation.context activation.activity :=
        fun activation member => fine.stack activation (stack ▸ List.mem_cons_of_mem top member)
      rw [stack]
      split
      · next resting =>
          have ticked : invariant.SessionFine
              { session with stack := top :: below, now := session.now + 1 } :=
            ⟨fine.heap, stack ▸ fine.stack⟩
          dsimp only
          split
          · exact raise_fine kept ticked.heap topFine belowFine (kept.stays _)
              (kept.ordinary trivial)
          · exact beginNext_fine kept ticked rfl resting
      · next continuation evaluating =>
          rw [evaluating] at topFine
          have advanced := top.context.evaluation.advance_keeps session.heap
          generalize turnTaken : top.context.evaluation.advance session.heap = answer at advanced
          obtain ⟨turn, evaluation, heap⟩ := answer
          obtain ⟨place, objects⟩ := advanced
          have heapFine : invariant.HeapFine heap := fine.heap.of_keeps objects.functions
          cases turn with
          | working =>
              have works := kept.works topFine turnTaken
              exact .working
                ⟨heapFine, List.forall_mem_cons.mpr ⟨evaluating ▸ works, belowFine⟩⟩
                (.top below (kept.stays _))
          | call request scope =>
              exact beginCall_fine kept heapFine belowFine (kept.calls topFine turnTaken) rfl
          | finished value =>
              exact settleStatement_fine kept belowFine
                (kept.delivers topFine turnTaken heapFine)
          | failed failure =>
              exact raise_fine kept heapFine (kept.abandons topFine place) belowFine
                (kept.stays _) (kept.fails topFine turnTaken)
          | endless => exact .endless fine (stack ▸ .stays _)
      · exact .idle fine (stack ▸ .stays _)
      · exact .idle fine (stack ▸ .stays _)

/-!
## Runs
-/

/-- The session that an operation leaves is fine, and so is its error. -/
structure AnswerFine {α : Type} (invariant : LocalInvariant) (answer : Answer α)
    (session : Session) : Prop where
  session : invariant.SessionFine session
  error : ∀ failure, answer = .failed failure → invariant.ErrorFine failure.cause

namespace AnswerFine

variable {α : Type} {session : Session}

private theorem value (value : α) (fine : invariant.SessionFine session) :
    invariant.AnswerFine (.value value) session := by
  refine ⟨fine, ?_⟩
  rintro _ ⟨⟩

private theorem unfinished (fine : invariant.SessionFine session) :
    invariant.AnswerFine (.unfinished : Answer α) session := by
  refine ⟨fine, ?_⟩
  rintro _ ⟨⟩

private theorem failed {failure : RuntimeError} (fine : invariant.SessionFine session)
    (error : invariant.ErrorFine failure.cause) :
    invariant.AnswerFine (.failed failure : Answer α) session := by
  refine ⟨fine, ?_⟩
  rintro _ ⟨⟩
  exact error

end AnswerFine

theorem runToEnd_fine (kept : invariant.KeptByTurns) (turns : Nat) {session : Session}
    (fine : invariant.SessionFine session) :
    invariant.AnswerFine (Session.runToEnd turns session).1 (Session.runToEnd turns session).2 := by
  induction turns generalizing session with
  | zero => exact .unfinished fine
  | succ turns ih =>
      have turn := advance_fine kept fine
      simp only [Session.runToEnd]
      generalize session.advance = answer at turn ⊢
      obtain ⟨progress, after⟩ := answer
      cases progress with
      | working => exact ih turn.session
      | idle => exact .value () turn.session
      | failed failure => exact .failed turn.session (turn.error failure rfl)
      | endless => exact .unfinished turn.session

theorem execute_fine (kept : invariant.KeptByTurns) (turns : Nat) {session : Session}
    (fine : invariant.SessionFine session) :
    invariant.SessionFine (Session.execute turns session).2 := by
  induction turns generalizing session with
  | zero => exact fine
  | succ turns ih =>
      have turn := (advance_fine kept fine).session
      simp only [Session.execute]
      split
      · exact fine
      · generalize session.advance = answer at turn ⊢
        obtain ⟨progress, after⟩ := answer
        cases progress with
        | working => exact ih turn
        | idle | failed | endless => exact ⟨turn.heap, turn.stack⟩

theorem pop_fine {session : Session} (fine : invariant.SessionFine session) :
    invariant.SessionFine session.pop.2 := by
  unfold Session.pop
  split
  · exact fine
  · next top below stack =>
      exact ⟨fine.heap.of_keeps (top.context.functions_release _),
        fun activation member => fine.stack activation (stack ▸ List.mem_cons_of_mem top member)⟩

theorem runContext_fine (kept : invariant.KeptByTurns) (turns : Nat) {session : Session}
    (fine : invariant.SessionFine session) {context : Context}
    (contextFine : invariant.Fine context .resting) :
    invariant.AnswerFine (Session.runContext turns session context).1
      (Session.runContext turns session context).2 := by
  have pushed : invariant.SessionFine
      ({ session with startedAt := some session.now }.push context) :=
    ⟨fine.heap, List.forall_mem_cons.mpr ⟨contextFine, fine.stack⟩⟩
  have ran := runToEnd_fine kept turns pushed
  unfold Session.runContext
  dsimp only
  generalize Session.runToEnd turns _ = answer at ran ⊢
  obtain ⟨answer, after⟩ := answer
  have popped : invariant.SessionFine { after with startedAt := session.startedAt }.pop.2 :=
    pop_fine ⟨ran.session.heap, ran.session.stack⟩
  cases answer with
  | value => exact .value _ popped
  | failed failure => exact .failed popped (ran.error failure rfl)
  | unfinished => exact .unfinished ran.session

theorem call_fine (kept : invariant.KeptByTurns) (turns : Nat) {session : Session}
    (fine : invariant.SessionFine session) (function : FunctionRef) (arguments : List Value)
    (receiver : Option Value) :
    invariant.AnswerFine (session.call turns function arguments receiver).1
      (session.call turns function arguments receiver).2 := by
  unfold Session.call
  dsimp only
  split
  · next cause refused =>
      exact .failed fine (kept.ordinary (Function.ordinary_checkArity _ _ _ refused))
  · split
    · next action _ =>
        have ordinary := session.ordinary_runNative action arguments receiver
        have native := session.runNative_keeps action arguments receiver
        generalize session.runNative action arguments receiver = answer at ordinary native ⊢
        obtain ⟨answer, after⟩ := answer
        obtain ⟨stack, functions⟩ := native
        have afterFine : invariant.SessionFine after :=
          ⟨fine.heap.of_keeps functions, fun activation member => fine.stack activation (stack ▸ member)⟩
        cases answer with
        | ok value => exact .value value afterFine
        | error cause => exact .failed afterFine (kept.ordinary (ordinary cause rfl))
    · next script entry body =>
        obtain ⟨locals, bound, opened, functions⟩ := session.callContext_keeps script entry
          (session.heap.function function).parameters (session.heap.function function).globals
          arguments receiver
        obtain ⟨calleeFine, _⟩ := kept.enters (fine.heap.function kept function) body
          locals ((session.heap.function function).globals.getD session.globals)
        have boundFine : invariant.SessionFine { session with heap := bound } :=
          ⟨fine.heap.of_keeps functions, fine.stack⟩
        simp only [opened]
        exact runContext_fine kept turns boundFine calleeFine

end LocalInvariant

end ScriptEngine
