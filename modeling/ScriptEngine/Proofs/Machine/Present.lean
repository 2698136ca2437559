import ScriptEngine.Proofs.Control.Present
import ScriptEngine.Proofs.Machine.Scopes

/-!
# All arrays of a running session are there

A session whose heap is closed, and whose contexts hold only arrays that are there, is left so
by every turn (`Session.Present.advance`). Sessions that scripts run in begin like this, and
what a host does in between keeps it up if the host makes up no arrays (`Session.Tidy`).
-/

set_option autoImplicit false

namespace ScriptEngine

/-- The heap has the arrays that a statement has already got. -/
def Continuation.Present (heap : Heap) : Continuation → Prop
  | .assignElementAt object _ _ _ => object.Present heap
  | .assignElement object index _ _ => object.Present heap ∧ index.Present heap
  | _ => True

def Activity.Present (heap : Heap) : Activity → Prop
  | .resting => True
  | .evaluating continuation => continuation.Present heap
  | .calling continuation scope _ => continuation.Present heap ∧ ScopePresent heap scope
  | .declaring _ _ => True

structure Activation.Present (heap : Heap) (activation : Activation) : Prop where
  context : activation.context.Present heap
  activity : activation.activity.Present heap

/-- All arrays that the session holds are there. -/
structure Session.Present (session : Session) : Prop where
  heap : session.heap.Closed
  stack : ∀ activation ∈ session.stack, activation.Present session.heap

/-- What a statement came to: a closed heap again, which has all arrays of the context. -/
def StatementOutcome.Present (before : Heap) : StatementOutcome → Prop
  | .done context grown => before.Grows grown ∧ context.Present grown
  | .line _ context grown => before.Grows grown ∧ context.Present grown
  | .evaluate _ continuation context grown =>
      before.Grows grown ∧ context.Present grown ∧ continuation.Present grown
  | .declare _ _ _ context grown => before.Grows grown ∧ context.Present grown
  | .failed _ context grown => before.Grows grown ∧ context.Present grown

variable {heap grown : Heap}

theorem Continuation.Present.mono {continuation : Continuation}
    (present : continuation.Present heap) (size : heap.arrays.size ≤ grown.arrays.size) :
    continuation.Present grown := by
  cases continuation with
  | assignElementAt => exact Value.Present.mono present size
  | assignElement => exact ⟨present.1.mono size, present.2.mono size⟩
  | _ => trivial

theorem Activation.Present.mono {activation : Activation} (present : activation.Present heap)
    (size : heap.arrays.size ≤ grown.arrays.size) : activation.Present grown := by
  obtain ⟨context, activity⟩ := activation
  refine ⟨present.context.mono size, ?_⟩
  cases activity with
  | resting | declaring => trivial
  | evaluating => exact present.activity.mono size
  | calling => exact ⟨present.activity.1.mono size, present.activity.2.mono size⟩

theorem StatementOutcome.Present.behind {before middle : Heap} {outcome : StatementOutcome}
    (present : outcome.Present middle) (grows : before.Grows middle) : outcome.Present before := by
  cases outcome with
  | done | line | declare | failed => exact ⟨grows.trans present.1, present.2⟩
  | evaluate => exact ⟨grows.trans present.1, present.2⟩

/-!
## Statements
-/

namespace Context.Present

variable {context : Context} (present : context.Present heap) (closed : heap.Closed)

include present closed

theorem tryBranches (branches : List (ExpressionRef × Option StatementRef))
    (otherwise : Option (Option StatementRef)) (following : Option StatementRef) :
    (context.tryBranches heap branches otherwise following).Present heap := by
  cases branches with
  | cons branch rest => exact ⟨closed.refl, present, trivial⟩
  | nil =>
      cases otherwise with
      | some body => exact ⟨closed.refl, present.enter _ _ _ _⟩
      | none => exact ⟨closed.refl, present.proceed⟩

theorem nextPass (loop : StatementRef) (item : String) (body : Option StatementRef) :
    (context.nextPass heap loop item body).Present heap := by
  unfold Context.nextPass
  split
  · next value iteration found =>
      obtain ⟨cursor, current, next⟩ := Option.bind_eq_some_iff.mp found
      have source := present.iteration current
      unfold Iteration.next at next
      obtain ⟨held, read, same⟩ := Option.map_eq_some_iff.mp next
      obtain ⟨rfl, rfl⟩ := Prod.mk.inj same
      have moved := present.setIteration (some { cursor with position := cursor.position + 1 })
        (by rintro _ ⟨⟩; exact source)
      have bound := closed.setMember context.names item (closed.itemAt read)
      exact ⟨bound, (moved.enter _ _ _ _).mono bound.size⟩
  · exact ⟨closed.refl, (present.setIteration none fun _ member => nomatch member).proceed⟩

theorem beginStatement (this : StatementRef) (statement : Statement) :
    (context.beginStatement heap this statement).Present heap := by
  cases statement with
  | expression | whileLoop => exact ⟨closed.refl, present, trivial⟩
  | print values =>
      cases values with
      | nil => exact ⟨closed.refl, present.proceed⟩
      | cons first rest => exact ⟨closed.refl, present, trivial⟩
  | assign target => cases target <;> exact ⟨closed.refl, present, trivial⟩
  | branch branches otherwise => exact present.tryBranches closed _ _ _
  | forLoop item iterable body span =>
      unfold Context.beginStatement
      dsimp only
      split
      · exact present.nextPass closed _ _ _
      · exact ⟨closed.refl, present, trivial⟩
  | breakLoops count span =>
      have left := present.breakOut count
      unfold Context.beginStatement
      dsimp only
      generalize context.breakOut count = answer at left
      obtain ⟨answer, after⟩ := answer
      cases answer <;> exact ⟨closed.refl, left⟩
  | continueLoop span =>
      have left := present.nextLoopPass
      unfold Context.beginStatement
      dsimp only
      generalize context.nextLoopPass = answer at left
      obtain ⟨answer, after⟩ := answer
      cases answer <;> exact ⟨closed.refl, left⟩
  | returnValue value =>
      cases value with
      | none => exact ⟨closed.refl, present.returnWith trivial⟩
      | some value => exact ⟨closed.refl, present, trivial⟩
  | pass => exact ⟨closed.refl, present.proceed⟩
  | delete name span =>
      unfold Context.beginStatement
      dsimp only
      split
      · have erased := closed.eraseMember context.names name
        exact ⟨erased, present.proceed.mono erased.size⟩
      · exact ⟨closed.refl, present⟩
  | define name parameters body =>
      have made := closed.newFunction ⟨name, parameters, .script context.script body,
        some context.evaluation.chain.outermost⟩ (by rintro _ _ ⟨⟩; exact present.evaluation.script)
      have bound := made.closed.setMember context.names name
        (show (Value.function ⟨heap.functions.size⟩).Present _ from trivial)
      exact ⟨made.trans bound, present.proceed.mono (made.trans bound).size⟩
  | record name body span => exact ⟨closed.refl, present⟩

theorem deliver {continuation : Continuation} (held : continuation.Present heap) {value : Value}
    (valuePresent : value.Present heap) :
    (context.deliver heap continuation value).Present heap := by
  cases continuation with
  | discard => exact ⟨closed.refl, present.proceed⟩
  | print line rest =>
      cases rest with
      | nil => exact ⟨closed.refl, present.proceed⟩
      | cons next rest => exact ⟨closed.refl, present, trivial⟩
  | assignName name operator span =>
      simp only [Context.deliver]
      split
      · next combined =>
          obtain ⟨made, stored⟩ := closed.combine valuePresent combined
          have bound := made.trans (made.closed.setMember context.names name stored)
          exact ⟨bound, present.proceed.mono bound.size⟩
      · exact ⟨closed.refl, present⟩
  | assignMemberOf name operator expression span =>
      simp only [Context.deliver]
      split
      · exact ⟨closed.refl, present, trivial⟩
      · exact ⟨closed.refl, present⟩
  | assignMember object name operator span =>
      simp only [Context.deliver]
      split
      · next combined =>
          obtain ⟨made, stored⟩ := closed.combine valuePresent combined
          have bound := made.trans (made.closed.setMember object name stored)
          exact ⟨bound, present.proceed.mono bound.size⟩
      · exact ⟨closed.refl, present⟩
  | assignElementOf => exact ⟨closed.refl, present, valuePresent⟩
  | assignElementAt => exact ⟨closed.refl, present, held, valuePresent⟩
  | assignElement object index operator span =>
      simp only [Context.deliver]
      split
      · next combined =>
          obtain ⟨made, stored⟩ := closed.combine valuePresent combined
          split
          · next same =>
              have written := made.trans (made.closed.setElement stored same)
              exact ⟨written, present.proceed.mono written.size⟩
          · exact ⟨made, present.mono made.size⟩
      · exact ⟨closed.refl, present⟩
  | branch body rest otherwise following =>
      simp only [Context.deliver]
      split
      · exact ⟨closed.refl, present.enter _ _ _ _⟩
      · exact present.tryBranches closed _ _ _
  | whileLoop loop body =>
      simp only [Context.deliver]
      split
      · exact ⟨closed.refl, present.enter _ _ _ _⟩
      · exact ⟨closed.refl, present.proceed⟩
  | forLoop loop item body span =>
      simp only [Context.deliver]
      split
      · next iteration started =>
          have source : iteration.source.Present heap := by
            unfold Iteration.start at started
            split at started <;> cases started <;> exact valuePresent
          exact (present.setIteration (some iteration) (by rintro _ ⟨⟩; exact source)).nextPass
            closed _ _ _
      · exact ⟨closed.refl, present⟩
  | returnValue => exact ⟨closed.refl, present.returnWith valuePresent⟩

end Context.Present

/-!
## Native functions
-/

namespace Session

/-- A new array of items that refer to nothing. -/
theorem present_newPlain {session : Session} (closed : session.heap.Closed) {α : Type}
    (given : List α) {item : α → Value} (plain : ∀ one, (item one).Plain) :
    session.heap.Grows (session.newArrayValue (given.map item)).2.heap ∧
      (session.newArrayValue (given.map item)).1.Present
        (session.newArrayValue (given.map item)).2.heap := by
  refine closed.newArray fun value member => ?_
  obtain ⟨one, _, rfl⟩ := List.mem_map.mp (List.mem_toArray.mp member)
  exact (plain one).present

theorem present_newTexts {session : Session} (closed : session.heap.Closed) (names : List String) :
    session.heap.Grows (session.newArrayValue (names.map Value.text)).2.heap ∧
      (session.newArrayValue (names.map Value.text)).1.Present
        (session.newArrayValue (names.map Value.text)).2.heap :=
  present_newPlain closed names fun _ => trivial

theorem present_namespaceValues {session : Session} (closed : session.heap.Closed)
    (namespaces : List RecordRef) :
    session.heap.Grows (session.namespaceValues namespaces).2.heap ∧
      ∀ value ∈ (session.namespaceValues namespaces).1,
        value.Present (session.namespaceValues namespaces).2.heap := by
  induction namespaces generalizing session with
  | nil => exact ⟨closed.refl, List.forall_mem_nil _⟩
  | cons reference rest ih =>
      simp only [namespaceValues]
      split
      · obtain ⟨grows, values⟩ := ih closed
        exact ⟨grows, List.forall_mem_cons.mpr ⟨trivial, values⟩⟩
      · obtain ⟨made, shown⟩ := present_newTexts closed (session.heap.record reference).names
        obtain ⟨grows, values⟩ := ih made.closed
        exact ⟨made.trans grows, List.forall_mem_cons.mpr ⟨shown.mono grows.size, values⟩⟩

theorem present_report {session : Session} (closed : session.heap.Closed) {arguments : List Value}
    (given : ∀ argument ∈ arguments, argument.Present session.heap) {receiver : Option Value}
    (receiverPresent : ScopePresent session.heap receiver) :
    session.heap.Grows (session.report arguments receiver).2.heap ∧
      (session.report arguments receiver).1.Present (session.report arguments receiver).2.heap := by
  obtain ⟨shown, values⟩ := present_namespaceValues closed session.namespaces
  obtain ⟨visible, array⟩ := shown.closed.newArray fun item member =>
    values item (List.mem_toArray.mp member)
  have grown := shown.trans visible
  have argument (index : Nat) : (arguments[index]?.getD .none).Present
      (session.namespaceValues session.namespaces).2.heap := by
    cases found : arguments[index]? with
    | none => trivial
    | some value => exact (given value (List.mem_of_getElem? found)).mono shown.size
  have written : session.heap.Grows (session.report arguments receiver).2.heap := by
    refine grown.trans (grown.closed.newArray fun item member => ?_).1
    simp only [List.mem_toArray, List.mem_cons, List.not_mem_nil, or_false] at member
    rcases member with rfl | rfl | rfl | rfl | rfl
    · rw [List.head?_eq_getElem?]
      exact (argument 0).mono visible.size
    · trivial
    · exact array
    · trivial
    · exact (argument 7).mono visible.size
  refine ⟨written, ?_⟩
  cases receiver with
  | none => trivial
  | some value => exact (receiverPresent value rfl).mono written.size

theorem present_runNative {session : Session} (closed : session.heap.Closed)
    (action : NativeAction) {arguments : List Value}
    (given : ∀ argument ∈ arguments, argument.Present session.heap) {receiver : Option Value}
    (receiverPresent : ScopePresent session.heap receiver) :
    session.heap.Grows (session.runNative action arguments receiver).2.heap ∧
      ∀ value, (session.runNative action arguments receiver).1 = .ok value →
        value.Present (session.runNative action arguments receiver).2.heap := by
  -- Most answers are made from something that is no value.
  have mapped {α : Type} (answer : Except RuntimeCause α) {result : α → Value}
      (plain : ∀ one, (result one).Plain) :
      session.heap.Grows session.heap ∧
        ∀ value, answer.map result = .ok value → value.Present session.heap := by
    refine ⟨closed.refl, fun value same => ?_⟩
    cases answer <;> cases same
    exact (plain _).present
  have plain {answer : Value} (plain : answer.Plain) :
      session.heap.Grows session.heap ∧
        ∀ value, (Except.ok answer : Except RuntimeCause Value) = .ok value →
          value.Present session.heap := by
    refine ⟨closed.refl, ?_⟩
    rintro _ ⟨⟩
    exact plain.present
  have refused {cause : RuntimeCause} : session.heap.Grows session.heap ∧
      ∀ value, (Except.error cause : Except RuntimeCause Value) = .ok value →
        value.Present session.heap :=
    ⟨closed.refl, fun _ same => nomatch same⟩
  cases action with
  | length | number => exact mapped _ fun _ => trivial
  | typeName | text | clock | rest => exact plain (by trivial)
  | range =>
      simp only [runNative]
      split
      · obtain ⟨grows, array⟩ := @present_newPlain session closed _ (List.range _)
          (fun index => .number (Float.ofNat index)) fun _ => trivial
        exact ⟨grows, by rintro _ ⟨⟩; exact array⟩
      · exact refused
  | memberNames =>
      simp only [runNative]
      split
      · obtain ⟨grows, array⟩ := present_newTexts closed (session.heap.record _).names
        exact ⟨grows, by rintro _ ⟨⟩; exact array⟩
      · exact refused
  | hasMember =>
      simp only [runNative]
      split
      · exact mapped _ fun _ => trivial
      · exact refused
  | suspend =>
      have same : (session.suspend true).heap = session.heap := by
        unfold Session.suspend
        split <;> rfl
      refine ⟨?_, by rintro _ ⟨⟩; trivial⟩
      simp only [runNative]
      rw [same]
      exact closed.refl
  | report =>
      obtain ⟨grows, value⟩ := present_report closed given receiverPresent
      exact ⟨grows, by rintro _ ⟨⟩; exact value⟩

/-!
## Turns
-/

/-- The heap of the session is as in `before` or has grown, and it has the arrays of all
contexts. -/
structure Grown (before : Heap) (session : Session) : Prop where
  heap : before.Grows session.heap
  stack : ∀ activation ∈ session.stack, activation.Present session.heap

variable {before : Heap} {below : List Activation}

private theorem Grown.of_top {session : Session} {top : Activation}
    (heap : before.Grows session.heap) (stack : session.stack = top :: below)
    (present : top.Present session.heap)
    (belowPresent : ∀ activation ∈ below, activation.Present before) : session.Grown before := by
  refine ⟨heap, ?_⟩
  rw [stack]
  exact List.forall_mem_cons.mpr ⟨present, fun activation member =>
    (belowPresent activation member).mono heap.size⟩

private theorem grown_unwind {heap : Heap} (grows : before.Grows heap) (failure : RuntimeError)
    {top : Activation} (present : top.context.Present before)
    (belowPresent : ∀ activation ∈ below, activation.Present before) :
    before.Grows (unwind failure top heap below).2.2 ∧
      ∀ activation ∈ (unwind failure top heap below).2.1,
        activation.Present (unwind failure top heap below).2.2 := by
  induction below generalizing failure top heap with
  | nil =>
      exact ⟨grows, List.forall_mem_singleton.mpr ⟨present.mono grows.size, trivial⟩⟩
  | cons caller below ih =>
      obtain ⟨callerPresent, others⟩ := List.forall_mem_cons.mp belowPresent
      have released := grows.trans (grows.closed.release top.context)
      unfold unwind
      split
      · exact ih released _ callerPresent.context others
      · exact ih released _ callerPresent.context others
      · refine ⟨grows, List.forall_mem_cons.mpr ⟨⟨present.mono grows.size, trivial⟩, ?_⟩⟩
        exact fun activation member => (belowPresent activation member).mono grows.size

private theorem grown_raise {session : Session} (grows : before.Grows session.heap)
    (failure : RuntimeError) {top : Activation} (present : top.context.Present session.heap)
    (belowPresent : ∀ activation ∈ below, activation.Present before) :
    (session.raise failure top below).2.Grown before := by
  obtain ⟨heap, stack⟩ := grown_unwind grows.closed.refl failure present
    fun activation member => (belowPresent activation member).mono grows.size
  exact ⟨grows.trans heap, stack⟩

private theorem grown_settleStatement {session : Session} {outcome : StatementOutcome}
    (present : outcome.Present before)
    (belowPresent : ∀ activation ∈ below, activation.Present before) :
    (session.settleStatement outcome below).2.Grown before := by
  cases outcome with
  | done context grown | line text context grown =>
      exact .of_top present.1 rfl ⟨present.2, trivial⟩ belowPresent
  | evaluate expression continuation context grown =>
      obtain ⟨grows, contextPresent, held⟩ := present
      exact .of_top grows rfl ⟨⟨contextPresent.evaluation.begin expression, contextPresent.frames,
        contextPresent.returned⟩, held⟩ belowPresent
  | declare name body span context grown =>
      obtain ⟨grows, contextPresent⟩ := present
      have opened := grows.trans grows.closed.newRecord
      refine ⟨opened, List.forall_mem_cons.mpr ⟨⟨?_, trivial⟩, List.forall_mem_cons.mpr
        ⟨⟨contextPresent.mono grows.closed.newRecord.size, trivial⟩, fun activation member =>
          (belowPresent activation member).mono opened.size⟩⟩⟩
      exact (Context.Present.new contextPresent.evaluation.script).enter _ _ _ _
  | failed failure context grown =>
      exact grown_raise present.1 failure present.2 belowPresent

/-- The heap in which a function is called has the arrays that its context begins with. -/
theorem present_callContext {session : Session} (closed : session.heap.Closed) {script : Script}
    (plain : script.Plain) (entry : Option StatementRef) (parameters : List String)
    (globals : Option RecordRef) {arguments : List Value}
    (given : ∀ argument ∈ arguments, argument.Present session.heap) {receiver : Option Value}
    (receiverPresent : ScopePresent session.heap receiver) :
    let opened := session.callContext script entry parameters globals arguments receiver
    session.heap.Grows opened.2.heap ∧ opened.1.Present opened.2.heap := by
  intro opened
  have bound := closed.newRecord.trans
    (closed.newRecord.closed.bindParameters (session.heap.newRecord .empty).1 parameters given)
  refine ⟨?_, (Context.Present.new plain).enter _ _ _ _⟩
  cases receiver with
  | none => exact bound
  | some value =>
      exact bound.trans (bound.closed.setMember _ _ ((receiverPresent value rfl).mono bound.size))

private theorem grown_beginCall {session : Session} {request : CallRequest} {scope : Option Value}
    {context : Context} {continuation : Continuation} (grows : before.Grows session.heap)
    (contextPresent : context.Present session.heap)
    (requestPresent : request.Present session.heap) (scopePresent : ScopePresent session.heap scope)
    (held : continuation.Present session.heap)
    (belowPresent : ∀ activation ∈ below, activation.Present before) :
    (session.beginCall request scope context continuation below).2.Grown before := by
  unfold beginCall
  dsimp only
  split
  · exact grown_raise grows _ contextPresent belowPresent
  · split
    · next action _ =>
        have native := @present_runNative
          { session with stack := ⟨context, .evaluating continuation⟩ :: below } grows.closed action
          request.arguments requestPresent.arguments request.receiver requestPresent.receiver
        have contexts := runNative_keeps
          { session with stack := ⟨context, .evaluating continuation⟩ :: below } action
          request.arguments request.receiver
        generalize runNative _ action _ _ = answer at native contexts
        obtain ⟨answer, after⟩ := answer
        obtain ⟨made, value⟩ := native
        have grown : before.Grows after.heap := grows.trans made
        have kept := contextPresent.mono made.size
        cases answer with
        | ok result =>
            dsimp only
            rw [modifyContext_of_stack contexts.stack]
            exact .of_top grown rfl ⟨⟨kept.evaluation.pushResult (value result rfl)
              (scopePresent.mono made.size), kept.frames, kept.returned⟩, held.mono made.size⟩
              belowPresent
        | error cause => exact grown_raise grown _ kept belowPresent
    · next script entry body =>
        obtain ⟨made, callee⟩ := present_callContext grows.closed
          (grows.closed.scripts _ script entry body) entry
          (session.heap.function request.function).parameters
          (session.heap.function request.function).globals requestPresent.arguments
          requestPresent.receiver
        refine ⟨grows.trans made, List.forall_mem_cons.mpr ⟨⟨callee, trivial⟩,
          List.forall_mem_cons.mpr ⟨⟨contextPresent.mono made.size, held.mono made.size,
            scopePresent.mono made.size⟩, fun activation member =>
              (belowPresent activation member).mono (grows.trans made).size⟩⟩⟩

private theorem grown_complete {session : Session} {top caller : Activation}
    (present : session.Present) (stack : session.stack = top :: caller :: below) :
    (session.complete top.context caller below).2.Grown session.heap := by
  obtain ⟨topPresent, callerPresent, belowPresent⟩ :
      top.Present session.heap ∧ caller.Present session.heap ∧
        ∀ activation ∈ below, activation.Present session.heap := by
    simpa [stack] using present.stack
  have released := present.heap.release top.context
  have callerKept := callerPresent.mono released.size
  unfold complete
  dsimp only
  split
  · next continuation scope span waits =>
      have value : (top.context.returnValue.getD .none).Present session.heap := by
        cases returned : top.context.returnValue with
        | none => trivial
        | some value => exact topPresent.context.returned value returned
      obtain ⟨held, scopePresent⟩ := waits ▸ callerKept.activity
      exact .of_top released rfl ⟨⟨callerKept.context.evaluation.pushResult
        (value.mono released.size) scopePresent, callerKept.context.frames,
        callerKept.context.returned⟩, held⟩ belowPresent
  · next name span _ =>
      unfold Context.takeNames
      split
      · next members left taken =>
          have bound := present.heap.setMember caller.context.names name
            (show (Value.record members).Present session.heap from trivial)
          exact .of_top bound rfl
            ⟨callerPresent.context.proceed.mono bound.size, trivial⟩ belowPresent
      · next cause left refused =>
          have same : left = top.context := by
            split at refused <;> cases refused
            rfl
          rw [same]
          exact grown_raise released _ callerKept.context belowPresent
  · exact ⟨present.heap.refl, present.stack⟩

private theorem grown_beginNext {session : Session} {top : Activation}
    (present : session.Present) (stack : session.stack = top :: below) :
    (session.beginNext top below).2.Grown session.heap := by
  obtain ⟨topPresent, belowPresent⟩ :
      top.Present session.heap ∧ ∀ activation ∈ below, activation.Present session.heap := by
    simpa [stack] using present.stack
  unfold beginNext
  split
  · cases below with
    | nil => exact ⟨present.heap.refl, present.stack⟩
    | cons caller below => exact grown_complete present stack
  · split
    · exact .of_top present.heap.refl rfl ⟨topPresent.context.proceed, trivial⟩ belowPresent
    · exact grown_settleStatement (topPresent.context.beginStatement present.heap _ _) belowPresent

/-- A turn leaves all arrays there that the session holds. -/
theorem Present.grown_advance {session : Session} (present : session.Present) :
    session.advance.2.Grown session.heap := by
  unfold advance
  split
  · next stack =>
      dsimp only
      split <;> exact ⟨present.heap.refl, present.stack⟩
  · next top below stack =>
      obtain ⟨topPresent, belowPresent⟩ :
          top.Present session.heap ∧ ∀ activation ∈ below, activation.Present session.heap := by
        simpa [stack] using present.stack
      split
      · dsimp only
        split
        · exact @grown_raise _ _ { session with now := session.now + 1 } present.heap.refl _ top
            topPresent.context belowPresent
        · exact @grown_beginNext below { session with now := session.now + 1 } top
            ⟨present.heap, present.stack⟩ stack
      · next continuation evaluating =>
          have held : continuation.Present session.heap := by
            have activity := topPresent.activity
            rwa [evaluating] at activity
          have evaluated := topPresent.context.evaluation.advance present.heap
          generalize top.context.evaluation.advance session.heap = answer at evaluated
          obtain ⟨turn, evaluation, grown⟩ := answer
          obtain ⟨grows, turnPresent, evaluationPresent⟩ := evaluated
          have kept := topPresent.mono grows.size
          have context : Context.Present grown { top.context with evaluation } :=
            ⟨evaluationPresent, kept.context.frames, kept.context.returned⟩
          have heldStill := held.mono grows.size
          cases turn with
          | working => exact .of_top grows rfl ⟨context, kept.activity⟩ belowPresent
          | call request called =>
              exact grown_beginCall grows context turnPresent.1 turnPresent.2 heldStill belowPresent
          | finished value =>
              exact grown_settleStatement
                ((context.deliver grows.closed heldStill turnPresent).behind grows) belowPresent
          | failed failure => exact grown_raise grows _ context belowPresent
          | endless => exact ⟨present.heap.refl, present.stack⟩
      · exact ⟨present.heap.refl, present.stack⟩
      · exact ⟨present.heap.refl, present.stack⟩

/-!
## The sessions of running scripts
-/

/-- The session comes about from a new one by running scripts, and by what a host does in
between. What the host hands over to functions, or puts into the heap, is there. -/
inductive Tidy : Session → Prop where
  | new (timeLimit : Option Nat) : Tidy (Session.new timeLimit)
  | advance {session : Session} (tidy : session.Tidy) : session.advance.2.Tidy
  | run {session after : Session} {script : Script} (tidy : session.Tidy)
      (parsed : script.Parsed) (started : session.run script = .ok after) : after.Tidy
  /-- A host calls a function: the context that runs it is put above the others. -/
  | enter {session bound : Session} {function : FunctionRef} {script : Script}
      {entry : Option StatementRef} {arguments : List Value} {receiver : Option Value}
      {context : Context} (tidy : session.Tidy) (settled : session.isSettled = true)
      (body : (session.heap.function function).body = .script script entry)
      (given : ∀ argument ∈ arguments, argument.Present session.heap)
      (receiverPresent : ScopePresent session.heap receiver)
      (called : session.callContext script entry (session.heap.function function).parameters
        (session.heap.function function).globals arguments receiver = (context, bound)) :
      (bound.push context).Tidy
  /-- What a host has called is over. -/
  | pop {session : Session} (tidy : session.Tidy) (settled : session.isSettled = true) :
      session.pop.2.Tidy
  | clear {session : Session} (tidy : session.Tidy) : session.clear.Tidy
  | breakOut {session : Session} (tidy : session.Tidy) (settled : session.isSettled = true)
      (count : Nat) : (session.modifyContext fun context => (context.breakOut count).2).Tidy
  | nextLoopPass {session : Session} (tidy : session.Tidy)
      (settled : session.isSettled = true) :
      (session.modifyContext fun context => context.nextLoopPass.2).Tidy
  | reset {session : Session} (tidy : session.Tidy) (settled : session.isSettled = true) :
      (session.modifyContext Context.reset).Tidy
  | install {session : Session} (tidy : session.Tidy) (name : String)
      (parameters : List String) (action : NativeAction) :
      (session.install name parameters action).Tidy
  /-- Whatever leaves contexts and functions alone: time passes, a script is suspended or
  goes on, members and items are changed. -/
  | other {session after : Session} (tidy : session.Tidy) (kept : session.KeepsContexts after)
      (globals : after.globals = session.globals)
      (size : session.heap.records.size ≤ after.heap.records.size)
      (heap : session.heap.Grows after.heap) : after.Tidy

theorem Tidy.staged {session : Session} (tidy : session.Tidy) : session.Staged := by
  induction tidy with
  | new timeLimit => exact .new timeLimit
  | advance _ ih => exact ih.advance
  | run _ parsed started ih => exact ih.run parsed started
  | enter _ settled body _ _ called ih => exact ih.enter settled body called
  | pop _ settled ih => exact ih.pop settled
  | clear _ ih => exact ih.clear
  | breakOut _ settled count ih => exact ih.breakOut settled count
  | nextLoopPass _ settled ih => exact ih.nextLoopPass settled
  | reset _ settled ih => exact ih.reset settled
  | install _ name parameters action ih => exact ih.install name parameters action
  | other _ kept globals size _ ih => exact ih.other kept globals size

namespace Tidy

variable {session : Session} (tidy : session.Tidy)

include tidy

theorem turns (count : Nat) : ((fun session => session.advance.2)^[count] session).Tidy := by
  induction count generalizing session with
  | zero => exact tidy
  | succ count ih => exact ih tidy.advance

end Tidy

private theorem closed_installAll {heap : Heap} (closed : heap.Closed) (target : RecordRef)
    (functions : List (String × List String × NativeAction)) :
    heap.Grows (heap.installAll target functions) := by
  unfold Heap.installAll
  induction functions generalizing heap with
  | nil => exact closed.refl
  | cons function functions ih =>
      have made := closed.newFunction ⟨function.1, function.2.1, .native function.2.2, none⟩
        (by rintro _ _ ⟨⟩)
      have bound := made.closed.setMember target function.1
        (show (Value.function ⟨heap.functions.size⟩).Present _ from trivial)
      exact (made.trans bound).trans (ih bound.closed)

theorem present_new (timeLimit : Option Nat) : (Session.new timeLimit).Present := by
  have empty : Heap.empty.Closed := by
    refine ⟨fun reference value member => ?_, fun reference name value found => ?_,
      fun reference script entry body => ?_⟩
    · simp [Heap.empty, Heap.array] at member
    · simp [Heap.empty, Heap.record, Record.get?_empty] at found
    · simp [Heap.empty, Heap.function] at body
  refine ⟨?_, List.forall_mem_nil _⟩
  have library := closed_installAll empty.newRecord.closed (Heap.empty.newRecord .empty).1
    libraryFunctions
  generalize made : Heap.installAll _ _ libraryFunctions = installed at library
  have methods := closed_installAll library.closed.newRecord.closed
    (installed.newRecord .empty).1 libraryMethods
  have bound := methods.closed.setMember (Heap.empty.newRecord .empty).1 objectName
    (show (Value.record (installed.newRecord .empty).1).Present _ from trivial)
  rw [← made] at bound
  exact bound.closed

theorem grows_releaseAll (stack : List Activation) {heap : Heap} (closed : heap.Closed) :
    heap.Grows (releaseAll stack heap) := by
  unfold releaseAll
  induction stack generalizing heap with
  | nil => exact closed.refl
  | cons activation stack ih =>
      have released := closed.release activation.context
      exact released.trans (ih released.closed)

namespace Present

variable {session : Session} (present : session.Present)

include present

theorem advance : session.advance.2.Present :=
  ⟨present.grown_advance.heap.closed, present.grown_advance.stack⟩

theorem modifyContext {change : Context → Context}
    (changed : ∀ context : Context, context.Present session.heap →
      (change context).Present session.heap) : (session.modifyContext change).Present := by
  unfold Session.modifyContext
  split
  · exact present
  · next top below stack =>
      obtain ⟨topPresent, others⟩ := List.forall_mem_cons.mp (stack ▸ present.stack)
      exact ⟨present.heap, List.forall_mem_cons.mpr
        ⟨⟨changed top.context topPresent.context, topPresent.activity⟩, others⟩⟩

theorem grows {after : Session} (stack : ∀ activation ∈ after.stack, activation ∈ session.stack)
    (heap : session.heap.Grows after.heap) : after.Present :=
  ⟨heap.closed, fun activation member =>
    (present.stack activation (stack activation member)).mono heap.size⟩

theorem run {after : Session} {script : Script} (parsed : script.Parsed)
    (started : session.run script = .ok after) : after.Present := by
  have released := grows_releaseAll session.stack present.heap
  unfold Session.run at started
  split at started
  · cases started
  · cases started
    exact ⟨released.closed, List.forall_mem_singleton.mpr
      ⟨(Context.Present.new parsed.plain).enter _ _ _ _, trivial⟩⟩

theorem enter {bound : Session} {script : Script} {entry : Option StatementRef}
    {function : FunctionRef} {arguments : List Value} {receiver : Option Value} {context : Context}
    (body : (session.heap.function function).body = .script script entry)
    (given : ∀ argument ∈ arguments, argument.Present session.heap)
    (receiverPresent : ScopePresent session.heap receiver)
    (called : session.callContext script entry (session.heap.function function).parameters
      (session.heap.function function).globals arguments receiver = (context, bound)) :
    (bound.push context).Present := by
  have opened := present_callContext present.heap (present.heap.scripts function script entry body)
    entry (session.heap.function function).parameters (session.heap.function function).globals given
    receiverPresent
  obtain ⟨_, _, same, _⟩ := session.callContext_keeps script entry
    (session.heap.function function).parameters (session.heap.function function).globals
    arguments receiver
  have stack : bound.stack = session.stack :=
    congrArg (fun opened => opened.2.stack) (called.symm.trans same)
  rw [called] at opened
  refine ⟨opened.1.closed, List.forall_mem_cons.mpr ⟨⟨opened.2, trivial⟩, ?_⟩⟩
  rw [stack]
  exact fun activation member => (present.stack activation member).mono opened.1.size

theorem pop : session.pop.2.Present := by
  unfold Session.pop
  split
  · exact present
  · next top below stack =>
      exact present.grows (fun _ member => stack ▸ List.mem_cons_of_mem top member)
        (present.heap.release top.context)

end Present

/-- All arrays of a session in which scripts run are there. -/
theorem Tidy.present {session : Session} (tidy : session.Tidy) : session.Present := by
  induction tidy with
  | new timeLimit => exact present_new timeLimit
  | advance _ ih => exact ih.advance
  | run _ parsed started ih => exact ih.run parsed started
  | enter _ _ body given receiverPresent called ih => exact ih.enter body given receiverPresent called
  | pop _ _ ih => exact ih.pop
  | @clear session _ ih =>
      exact ⟨(grows_releaseAll session.stack ih.heap).closed, List.forall_mem_nil _⟩
  | breakOut _ _ count ih => exact ih.modifyContext fun _ present => present.breakOut count
  | nextLoopPass _ _ ih => exact ih.modifyContext fun _ present => present.nextLoopPass
  | reset _ _ ih => exact ih.modifyContext fun _ present => present.reset
  | @install session _ name parameters action ih =>
      have made := ih.heap.newFunction ⟨name, parameters, .native action, none⟩ (by rintro _ _ ⟨⟩)
      have bound := made.closed.setMember session.globals name
        (show (Value.function ⟨session.heap.functions.size⟩).Present _ from trivial)
      exact ih.grows (fun _ member => member) (made.trans bound)
  | other _ kept _ _ heap ih => exact ih.grows (fun _ member => kept.stack ▸ member) heap

end Session

end ScriptEngine
