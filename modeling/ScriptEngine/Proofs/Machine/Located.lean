import ScriptEngine.Proofs.Grammar.Places
import ScriptEngine.Proofs.Machine.Balance
import ScriptEngine.Proofs.Machine.Scopes

/-!
# Where errors are located

An error arises in the innermost context: in the node of an expression that is evaluated,
in a call that such a node asks for, or in the statement that the context stands on. It has
the place of this node or statement from the beginning, so no context that it takes down
gives it another one (`Session.failures_are_located`).
-/

set_option autoImplicit false

namespace ScriptEngine

/-- The place of the statement, which a statement keeps for errors while it waits. -/
def Continuation.span? : Continuation → Option Span
  | assignName _ _ span => some span
  | assignMemberOf _ _ _ span => some span
  | assignMember _ _ _ span => some span
  | assignElementOf _ _ _ span => some span
  | assignElementAt _ _ _ span => some span
  | assignElement _ _ _ span => some span
  | forLoop _ _ _ span => some span
  | _ => none

/-- The statement waits in this way, as far as its place is concerned. -/
def Continuation.WaitsIn (statement : Statement) (continuation : Continuation) : Prop :=
  ∀ span, continuation.span? = some span → statement.span? = some span

/-- The context stands on a statement. -/
def Context.StandsOn (context : Context) (statement : Statement) : Prop :=
  ∃ this, context.current = some this ∧ context.script.statement? this = some statement

/-- While a context waits for a value, it stands on the statement that waits. -/
def Activity.Attends (context : Context) : Activity → Prop
  | .resting => True
  | .evaluating continuation =>
      ∃ statement, context.StandsOn statement ∧ continuation.WaitsIn statement
  | .calling continuation _ _ =>
      ∃ statement, context.StandsOn statement ∧ continuation.WaitsIn statement
  | .declaring _ _ => True

/-- All scripts are among the given ones, and contexts stand on what waits in them. -/
def attending (scripts : Script → Prop) : LocalInvariant where
  FunctionFine function := ∀ script entry, function.body = .script script entry → scripts script
  Fine context activity := scripts context.script ∧ activity.Attends context
  ErrorFine _ := True
  Moves _ _ := True
  Fresh _ := True

/-- The error arises in the statement and has its place. -/
def RuntimeError.ArisesIn (statement : Statement) (failure : RuntimeError) : Prop :=
  ∃ cause span, failure = .placed cause span ∧ statement.span? = some span

/-- What a statement came to, with the place of its errors. -/
def StatementOutcome.Attends (scripts : Script → Prop) (statement : Statement)
    (context : Context) : StatementOutcome → Prop
  | .done after heap => (attending scripts).HeapFine heap ∧ context.KeepsScope after
  | .line _ after heap => (attending scripts).HeapFine heap ∧ context.KeepsScope after
  | .evaluate _ continuation after heap =>
      (attending scripts).HeapFine heap ∧ after = context ∧ continuation.WaitsIn statement
  | .declare _ _ _ after heap => (attending scripts).HeapFine heap ∧ after = context
  | .failed failure after heap =>
      (attending scripts).HeapFine heap ∧ context.KeepsScope after ∧ failure.ArisesIn statement

namespace Attending

variable {scripts : Script → Prop} {context : Context} {heap : Heap} {statement : Statement}

private theorem tryBranches (heapFine : (attending scripts).HeapFine heap)
    (branches : List (ExpressionRef × Option StatementRef))
    (otherwise : Option (Option StatementRef)) (following : Option StatementRef) :
    (context.tryBranches heap branches otherwise following).Attends scripts statement context := by
  cases branches with
  | cons branch rest =>
      refine ⟨heapFine, rfl, ?_⟩
      rintro _ ⟨⟩
  | nil =>
      cases otherwise with
      | none => exact ⟨heapFine, context.keepsScope_proceed⟩
      | some body => exact ⟨heapFine, context.keepsScope_enter body following none none⟩

private theorem nextPass {origin : Context} (heapFine : (attending scripts).HeapFine heap)
    (scope : origin.KeepsScope context) (loop : StatementRef) (item : String)
    (body : Option StatementRef) :
    (context.nextPass heap loop item body).Attends scripts statement origin := by
  unfold Context.nextPass
  split
  · exact ⟨heapFine.of_keeps rfl, scope.trans ((context.keepsScope_setIteration _).trans
      (Context.keepsScope_enterLoopBody _ loop body))⟩
  · exact ⟨heapFine, scope.trans ((context.keepsScope_setIteration _).trans
      (Context.keepsScope_proceed _))⟩

/-- A statement that waits does so with its own place, and one that fails has it. -/
theorem beginStatement (heapFine : (attending scripts).HeapFine heap)
    (among : scripts context.script) (this : StatementRef) :
    (context.beginStatement heap this statement).Attends scripts statement context := by
  have waits {node : ExpressionRef} {continuation : Continuation}
      (same : ∀ span, continuation.span? = some span → statement.span? = some span) :
      (StatementOutcome.evaluate node continuation context heap).Attends scripts statement context :=
    ⟨heapFine, rfl, same⟩
  cases statement with
  | expression | whileLoop => exact waits (by rintro _ ⟨⟩)
  | pass => exact ⟨heapFine, context.keepsScope_proceed⟩
  | record => exact ⟨heapFine, rfl⟩
  | print values =>
      cases values with
      | nil => exact ⟨heapFine, context.keepsScope_proceed⟩
      | cons first rest => exact waits (by rintro _ ⟨⟩)
  | assign target operator value span => cases target <;> exact waits fun _ same => same
  | branch branches otherwise => exact tryBranches heapFine branches otherwise _
  | forLoop item iterable body span =>
      simp only [Context.beginStatement]
      split
      · exact nextPass heapFine (.refl context) this item body
      · exact waits fun _ same => same
  | breakLoops count span =>
      have kept := context.keepsScope_breakOut count
      simp only [Context.beginStatement]
      generalize context.breakOut count = answer at kept
      obtain ⟨answer, after⟩ := answer
      cases answer with
      | ok => exact ⟨heapFine, kept⟩
      | error failure => exact ⟨heapFine, kept, _, span, rfl, rfl⟩
  | continueLoop span =>
      have kept := context.keepsScope_nextLoopPass
      simp only [Context.beginStatement]
      generalize context.nextLoopPass = answer at kept
      obtain ⟨answer, after⟩ := answer
      cases answer with
      | ok => exact ⟨heapFine, kept⟩
      | error failure => exact ⟨heapFine, kept, _, span, rfl, rfl⟩
  | returnValue value =>
      cases value with
      | none => exact ⟨heapFine, context.keepsScope_returnWith _⟩
      | some node => exact waits (by rintro _ ⟨⟩)
  | delete name span =>
      simp only [Context.beginStatement]
      split
      · exact ⟨heapFine.of_keeps rfl, context.keepsScope_proceed⟩
      · exact ⟨heapFine, .refl context, _, span, rfl, rfl⟩
  | define name parameters body =>
      refine ⟨LocalInvariant.HeapFine.of_keeps (heapFine.newFunction ?_) rfl,
        context.keepsScope_proceed⟩
      rintro script entry ⟨⟩
      exact among

/-- A value is handed to a statement that goes on waiting with its own place, or fails
there. -/
theorem deliver (heapFine : (attending scripts).HeapFine heap) {continuation : Continuation}
    (waits : continuation.WaitsIn statement) (value : Value) :
    (context.deliver heap continuation value).Attends scripts statement context := by
  have proceeded {grown : Heap} (functions : grown.functions = heap.functions) :
      (StatementOutcome.done context.proceed grown).Attends scripts statement context :=
    ⟨heapFine.of_keeps functions, context.keepsScope_proceed⟩
  have refused {cause : RuntimeCause} {span : Span} {grown : Heap}
      (functions : grown.functions = heap.functions) (own : continuation.span? = some span) :
      (StatementOutcome.failed (.placed cause span) context grown).Attends scripts statement context :=
    ⟨heapFine.of_keeps functions, .refl context, cause, span, rfl, waits span own⟩
  cases continuation with
  | discard => exact proceeded rfl
  | print line rest =>
      cases rest with
      | nil => exact ⟨heapFine, context.keepsScope_proceed⟩
      | cons next rest => exact ⟨heapFine, rfl, by rintro _ ⟨⟩⟩
  | assignName name operator span =>
      simp only [Context.deliver]
      split
      · next combined => exact proceeded (AssignOperator.keepsObjects_combine combined).functions
      · exact refused rfl rfl
  | assignMemberOf name operator expression span =>
      simp only [Context.deliver]
      split
      · exact ⟨heapFine, rfl, waits⟩
      · exact refused rfl rfl
  | assignMember object name operator span =>
      simp only [Context.deliver]
      split
      · next combined => exact proceeded (AssignOperator.keepsObjects_combine combined).functions
      · exact refused rfl rfl
  | assignElementOf | assignElementAt => exact ⟨heapFine, rfl, waits⟩
  | assignElement object index operator span =>
      simp only [Context.deliver]
      split
      · next combined =>
          have kept := (AssignOperator.keepsObjects_combine combined).functions
          split
          · next stored => exact proceeded ((Heap.functions_setElement stored).trans kept)
          · exact refused kept rfl
      · exact refused rfl rfl
  | branch body rest otherwise following =>
      simp only [Context.deliver]
      split
      · exact ⟨heapFine, context.keepsScope_enter body following none none⟩
      · exact tryBranches heapFine rest otherwise following
  | whileLoop loop body =>
      simp only [Context.deliver]
      split
      · exact ⟨heapFine, context.keepsScope_enterLoopBody loop body⟩
      · exact proceeded rfl
  | forLoop loop item body span =>
      simp only [Context.deliver]
      split
      · exact nextPass heapFine (context.keepsScope_setIteration _) loop item body
      · exact refused rfl rfl
  | returnValue => exact ⟨heapFine, context.keepsScope_returnWith value⟩

private theorem outcomeFine {outcome : StatementOutcome} {frames : List Frame}
    (among : scripts context.script) (stands : context.StandsOn statement)
    (attends : outcome.Attends scripts statement context) :
    (attending scripts).OutcomeFine frames outcome := by
  cases outcome with
  | done after heap | line _ after heap =>
      exact ⟨attends.1, ⟨attends.2.script ▸ among, trivial⟩, trivial⟩
  | evaluate node continuation after heap =>
      obtain ⟨heapFine, rfl, waits⟩ := attends
      exact ⟨heapFine, ⟨among, statement, stands, waits⟩, trivial⟩
  | declare name body span after heap =>
      obtain ⟨heapFine, rfl⟩ := attends
      refine ⟨heapFine, ⟨among, trivial⟩, trivial, fun members => ⟨⟨?_, trivial⟩, trivial⟩⟩
      rw [(Context.keepsScope_enter _ body none none none).script]
      exact among
  | failed failure after heap =>
      exact ⟨attends.1, ⟨attends.2.1.script ▸ among, trivial⟩, trivial, trivial⟩

/-- No context comes to stand on another statement than the one that waits in it. -/
theorem kept : (attending scripts).KeptByTurns where
  ordinary _ := trivial
  native {function} isNative script entry body := by
    simp [Function.isNative, body] at isNative
  stays _ := trivial
  abandons {context _ evaluation} fine place := by
    have same : ({ context with evaluation } : Context).script = context.script := place.script
    exact ⟨same ▸ fine.1, trivial⟩
  begins {context _ this _} fine current found heapFine :=
    outcomeFine fine.1 ⟨this, current, found⟩ (beginStatement heapFine fine.1 this)
  skips {context _} fine _ _ :=
    ⟨⟨context.keepsScope_proceed.script ▸ fine.1, trivial⟩, trivial⟩
  works {context _ _ _ _} fine turn := by
    obtain ⟨statement, ⟨this, current, found⟩, waits⟩ := fine.2
    have same := Context.script_of_advance turn
    exact ⟨same ▸ fine.1, statement, ⟨this, current, same ▸ found⟩, waits⟩
  calls {context _ _ _ _ _ _} fine turn := by
    obtain ⟨statement, ⟨this, current, found⟩, waits⟩ := fine.2
    have same := Context.script_of_advance turn
    exact ⟨same ▸ fine.1, statement, ⟨this, current, same ▸ found⟩, waits⟩
  fails _ _ := trivial
  delivers {context _ _ _ after _} fine turn heapFine := by
    obtain ⟨statement, ⟨this, current, found⟩, waits⟩ := fine.2
    have same := Context.script_of_advance turn
    have stands : ({ context with evaluation := after } : Context).StandsOn statement :=
      ⟨this, current, same ▸ found⟩
    exact outcomeFine (same ▸ fine.1) stands (deliver heapFine waits _)
  returns fine _ := fine
  declares {context _ _} fine :=
    ⟨⟨context.keepsScope_proceed.script ▸ fine.1, trivial⟩, trivial⟩
  enters functionFine body locals globals := by
    refine ⟨⟨?_, trivial⟩, trivial⟩
    rw [(Context.keepsScope_enter _ _ none none none).script]
    exact functionFine _ _ body

/-- What a host does to a context leaves its script alone. -/
theorem keptByHosts : (attending Script.Parsed).Kept where
  toKeptByTurns := kept
  runs parsed globals := by
    refine ⟨⟨?_, trivial⟩, trivial⟩
    rw [(Context.keepsScope_enter _ _ none none none).script]
    exact parsed
  breaks {context} fine count :=
    ⟨⟨(context.keepsScope_breakOut count).script ▸ fine.1, trivial⟩, trivial⟩
  continues {context} fine :=
    ⟨⟨context.keepsScope_nextLoopPass.script ▸ fine.1, trivial⟩, trivial⟩
  resets fine := ⟨⟨fine.1, trivial⟩, trivial⟩

end Attending

/-!
## What fails in one turn
-/

/-- The next turn evaluates this node. -/
def Evaluation.ComesTo (evaluation : Evaluation) (expression : Expression) : Prop :=
  ∃ next rest, evaluation.pending = next :: rest ∧
    evaluation.script.expression? next.node = some expression

/-- The errors of a node have its place, and so do those of a call that it asks for. -/
def NodeOutcome.LocatedIn (node : Expression) : NodeOutcome → Prop
  | .failed failure => ∃ cause, failure = .placed cause node.span
  | .call request => ∃ callee arguments, node = .call callee arguments request.span
  | .value _ => True
  | .delegated => True
  | .endless => True

/-- The errors of a turn have the place of the node that it evaluates. -/
def Evaluation.Turn.LocatedIn (evaluation : Evaluation) : Evaluation.Turn → Prop
  | .failed failure => failure.cause.Ordinary →
      ∃ expression cause, evaluation.ComesTo expression ∧ failure = .placed cause expression.span
  | .call request _ =>
      ∃ callee arguments, evaluation.ComesTo (.call callee arguments request.span)
  | .working => True
  | .finished _ => True
  | .endless => True

namespace Evaluation

theorem apply_located (evaluation : Evaluation) (heap : Heap) (node : Expression)
    (operands : List ScopedResult) :
    (evaluation.apply heap node operands).1.LocatedIn node := by
  unfold apply
  split
  · trivial
  · dsimp only
    split
    · trivial
    · exact ⟨_, rfl⟩
  · dsimp only
    split
    · trivial
    · exact ⟨_, rfl⟩
  · split
    · trivial
    · exact ⟨_, rfl⟩
    · trivial
  · next operator _ _ _ _ =>
      cases operator <;> dsimp only <;> split <;> trivial
  · dsimp only
    split
    · trivial
    · exact ⟨_, rfl⟩
  · dsimp only
    split
    · trivial
    · exact ⟨_, rfl⟩
  · trivial
  · next callee arguments span _ _ =>
      split
      · exact ⟨callee, arguments, rfl⟩
      · exact ⟨_, rfl⟩
  · split <;> trivial
  · trivial

/-- A node has its results, or it fails because they are missing. -/
theorem evaluateNode_located (evaluation : Evaluation) (heap : Heap) (node : Expression) :
    (evaluation.evaluateNode heap node).1.LocatedIn node ∨
      (evaluation.evaluateNode heap node).1 = .failed (.unplaced (.unbalancedResults 0)) := by
  unfold evaluateNode
  split
  · next operands taken _ => exact .inl (taken.apply_located heap node operands)
  · exact .inr rfl

/-- An ordinary error of a turn, or a call that it asks for, comes from the node that is
evaluated and has its place. -/
theorem advance_located (evaluation : Evaluation) (heap : Heap) :
    (evaluation.advance heap).1.LocatedIn evaluation := by
  unfold advance
  split
  · dsimp only
    split
    · trivial
    · exact fun ordinary => ordinary.elim
  · next node scope rest pending =>
      dsimp only
      split
      · trivial
      · next expression found =>
          have comes : evaluation.ComesTo expression := ⟨_, rest, pending, found⟩
          have located := evaluateNode_located
            { evaluation with
              pending := rest, names := scope.bind Value.recordRef?, current := some node } heap
            expression
          generalize evaluateNode _ heap expression = answer at located
          obtain ⟨outcome, after, grown⟩ := answer
          cases outcome with
          | value | delegated | endless => trivial
          | call request =>
              rcases located with ⟨callee, arguments, rfl⟩ | unbalanced
              · exact ⟨callee, arguments, comes⟩
              · cases unbalanced
          | failed failure =>
              intro ordinary
              rcases located with ⟨cause, rfl⟩ | unbalanced
              · exact ⟨expression, cause, comes, rfl⟩
              · cases unbalanced
                exact ordinary.elim

end Evaluation

namespace Session

/-- The function does not fit the call, or it is native and fails. -/
def Refuses (session : Session) (request : CallRequest) (cause : RuntimeCause) : Prop :=
  (session.heap.function request.function).checkArity request.arguments.length = .error cause ∨
    ∃ action, (session.heap.function request.function).body = .native action ∧
      (session.runNative action request.arguments request.receiver).1 = .error cause

/-- How the next turn of the innermost context, which stands on a statement, fails, and
where: in a node, in a call that a node asks for, or in the statement itself, when it is
begun or when it is given the value that it waits for. -/
inductive FailsAt (session : Session) (context : Context) (below : List Activation)
    (statement : Statement) (cause : RuntimeCause) : Activity → Span → Prop where
  | node {continuation : Continuation} {expression : Expression}
      (comes : context.evaluation.ComesTo expression)
      (fails : (context.evaluation.advance session.heap).1 =
        .failed (.placed cause expression.span)) :
      FailsAt session context below statement cause (.evaluating continuation) expression.span
  | call {continuation : Continuation} {callee : ExpressionRef} {arguments : List ExpressionRef}
      {request : CallRequest} {scope : Option Value} {evaluation : Evaluation} {heap : Heap}
      (comes : context.evaluation.ComesTo (.call callee arguments request.span))
      (asks : context.evaluation.advance session.heap = (.call request scope, evaluation, heap))
      (refused : Refuses
        { session with
          heap
          stack := ⟨{ context with evaluation }, .evaluating continuation⟩ :: below }
        request cause) :
      FailsAt session context below statement cause (.evaluating continuation) request.span
  | begun {this : StatementRef} {span : Span} {after : Context} {heap : Heap}
      (current : context.current = some this) (place : statement.span? = some span)
      (fails : context.beginStatement session.heap this statement =
        .failed (.placed cause span) after heap) :
      FailsAt session context below statement cause .resting span
  | given {continuation : Continuation} {value : Value} {evaluation : Evaluation}
      {heap grown : Heap} {span : Span} {after : Context}
      (finished : context.evaluation.advance session.heap = (.finished value, evaluation, heap))
      (place : statement.span? = some span)
      (fails : Context.deliver { context with evaluation } heap continuation value =
        .failed (.placed cause span) after grown) :
      FailsAt session context below statement cause (.evaluating continuation) span

/-- An error that has a place keeps it in all contexts that it takes down. -/
theorem unwind_placed (cause : RuntimeCause) (span : Span) (top : Activation) (heap : Heap)
    (below : List Activation) :
    (unwind (.placed cause span) top heap below).1 = .placed cause span := by
  induction below generalizing top heap with
  | nil => rfl
  | cons caller below ih =>
      unfold unwind
      split
      · exact ih caller _
      · exact ih caller _
      · rfl

theorem raise_placed (session : Session) (cause : RuntimeCause) (span : Span) (top : Activation)
    (below : List Activation) :
    (session.raise (.placed cause span) top below).1 = .failed (.placed cause span) :=
  congrArg Progress.failed (unwind_placed cause span top session.heap below)

/-- Only a statement that fails makes the turn fail that settles it. -/
theorem settleStatement_located {session : Session} {origin : Context} {statement : Statement}
    {outcome : StatementOutcome} {below : List Activation} {failure : RuntimeError}
    {scripts : Script → Prop} (attends : outcome.Attends scripts statement origin)
    (failed : (session.settleStatement outcome below).1 = .failed failure) :
    ∃ cause span after heap, failure = .placed cause span ∧ statement.span? = some span ∧
      outcome = .failed (.placed cause span) after heap := by
  cases outcome with
  | done | line | evaluate | declare => cases failed
  | failed cause after heap =>
      obtain ⟨_, _, cause, span, rfl, place⟩ := attends
      have raised := raise_placed { session with heap } cause span ⟨after, .resting⟩ below
      obtain rfl := Progress.failed.inj (raised.symm.trans failed)
      exact ⟨cause, span, after, heap, rfl, place, rfl⟩

/-- A call that fails at once is refused, and its error has the place of the call. -/
theorem beginCall_located {session : Session} {request : CallRequest} {scope : Option Value}
    {context : Context} {continuation : Continuation} {below : List Activation}
    {failure : RuntimeError}
    (failed : (session.beginCall request scope context continuation below).1 = .failed failure) :
    ∃ cause, failure = .placed cause request.span ∧
      Refuses { session with stack := ⟨context, .evaluating continuation⟩ :: below }
        request cause := by
  unfold beginCall at failed
  dsimp only at failed
  split at failed
  · next cause refused =>
      rw [raise_placed] at failed
      exact ⟨cause, (Progress.failed.inj failed).symm, .inl refused⟩
  · split at failed
    · next action body =>
        split at failed
        · cases failed
        · next cause after ran =>
            rw [raise_placed] at failed
            exact ⟨cause, (Progress.failed.inj failed).symm,
              .inr ⟨action, body, congrArg Prod.fst ran⟩⟩
    · cases failed

/-- Every context that a record waits for owns its names, so its end does not fail. -/
theorem Stacked.complete_ne_failed {globals : RecordRef} {heap : Heap} {top caller : Activation}
    {below : List Activation} (stacked : Stacked globals heap (top :: caller :: below))
    (session : Session) (failure : RuntimeError) :
    (session.complete top.context caller below).1 ≠ .failed failure := by
  intro failed
  unfold complete at failed
  split at failed
  · cases failed
  · have owns : top.context.ownsNames = true := by
      cases stacked.layers with
      | cons sees _ =>
          cases sees with
          | base _ _ bottom => cases bottom
          | function _ _ own | block _ _ _ _ own => exact own.owns
    simp only [Context.takeNames, owns] at failed
    cases failed
  · cases failed

/-- A context at rest fails in the statement that it stands on. -/
theorem beginNext_located {session : Session} {globals : RecordRef} {context : Context}
    {below : List Activation} {failure : RuntimeError}
    {scripts : Script → Prop}
    (stacked : Stacked globals session.heap (⟨context, .resting⟩ :: below))
    (heapFine : (attending scripts).HeapFine session.heap) (among : scripts context.script)
    (failed : (session.beginNext ⟨context, .resting⟩ below).1 = .failed failure) :
    ∃ statement cause span, failure = .placed cause span ∧ context.StandsOn statement ∧
      session.FailsAt context below statement cause .resting span := by
  unfold beginNext at failed
  split at failed
  · cases below with
    | nil => cases failed
    | cons caller below => exact (stacked.complete_ne_failed session failure failed).elim
  · next this current =>
      split at failed
      · cases failed
      · next statement found =>
          obtain ⟨cause, span, after, heap, rfl, place, fails⟩ :=
            settleStatement_located (Attending.beginStatement heapFine among this) failed
          exact ⟨statement, cause, span, rfl, ⟨this, current, found⟩, .begun current place fails⟩

/-- A turn without a time limit fails in the innermost context: in a node that it
evaluates or in the statement that it stands on. -/
theorem advance_located {session after : Session} {failure : RuntimeError}
    {scripts : Script → Prop} (layout : session.Layout) (attends : (attending scripts).SessionFine session)
    (balanced : balance.SessionFine session) (unlimited : session.timeLimit = none)
    (failed : session.advance = (.failed failure, after)) :
    ∃ context activity below statement cause span,
      session.stack = ⟨context, activity⟩ :: below ∧ scripts context.script ∧
        failure = .placed cause span ∧ context.StandsOn statement ∧
        session.FailsAt context below statement cause activity span := by
  have failed : session.advance.1 = .failed failure := congrArg Prod.fst failed
  cases stack : session.stack with
  | nil =>
      simp only [advance, stack, isOverdue, unlimited] at failed
      cases failed
  | cons top below =>
      obtain ⟨context, activity⟩ := top
      have present : ⟨context, activity⟩ ∈ session.stack := stack ▸ List.mem_cons_self
      obtain ⟨among, attending⟩ := attends.stack _ present
      cases activity with
      | resting =>
          have stacked := layout.stacked
          rw [stack] at stacked
          simp only [advance, stack, isOverdue, unlimited] at failed
          obtain ⟨statement, cause, span, rfl, stands, fails⟩ :=
            @beginNext_located
              { session with
                stack := ⟨context, .resting⟩ :: below
                timeLimit := none
                now := session.now + 1 }
              session.globals _ _ _ _ stacked attends.heap among failed
          refine ⟨context, _, below, statement, cause, span, rfl, among, rfl, stands, ?_⟩
          cases fails with
          | begun current place fails => exact .begun current place fails
      | evaluating continuation =>
          obtain ⟨statement, stands, waits⟩ := attending
          have located := context.evaluation.advance_located session.heap
          have objects := (context.evaluation.advance_keeps session.heap).2
          have fits := balanced.stack _ present
          simp only [advance, stack] at failed
          generalize turnTaken : context.evaluation.advance session.heap = answer
            at located objects failed
          obtain ⟨turn, evaluation, heap⟩ := answer
          cases turn with
          | working | endless => cases failed
          | call request scope =>
              obtain ⟨callee, arguments, comes⟩ := located
              obtain ⟨cause, rfl, refused⟩ := beginCall_located failed
              exact ⟨context, _, below, statement, cause, _, rfl, among, rfl, stands,
                .call comes turnTaken refused⟩
          | finished value =>
              obtain ⟨cause, span, after, grown, rfl, place, fails⟩ :=
                settleStatement_located
                  (Attending.deliver (attends.heap.of_keeps objects.functions) waits value) failed
              exact ⟨context, _, below, statement, cause, span, rfl, among, rfl, stands,
                .given turnTaken place fails⟩
          | failed cause =>
              obtain ⟨expression, cause, comes, rfl⟩ := located (Balance.kept.fails fits turnTaken)
              rw [raise_placed] at failed
              obtain rfl := Progress.failed.inj failed
              exact ⟨context, _, below, statement, cause, _, rfl, among, rfl, stands,
                .node comes (congrArg Prod.fst turnTaken)⟩
      | calling | declaring =>
          simp only [advance, stack] at failed
          cases failed

/-!
## What fails in a run
-/

/-- Some turns lead from the first session to the second. -/
def Proceeds : Session → Session → Prop :=
  Relation.ReflTransGen fun session next => session.advance = (.working, next)

/-- The run of a session fails: it comes to a session whose innermost context, which stands
on the statement, fails in the next turn. That is the end of the run. -/
inductive RunFails (session : Session) (context : Context) (statement : Statement)
    (cause : RuntimeCause) (span : Span) (after : Session) : Prop where
  | intro {failing last : Session} {activity : Activity} {below : List Activation}
      (proceeds : session.Proceeds failing) (stack : failing.stack = ⟨context, activity⟩ :: below)
      (stands : context.StandsOn statement)
      (fails : failing.FailsAt context below statement cause activity span)
      (turn : failing.advance = (.failed (.placed cause span), last))
      (stopped : after = { last with state := .stopped })

theorem execute_failed {session after : Session} {failure : RuntimeError} {turns : Nat}
    (executed : session.execute turns = (.failed failure, after)) :
    ∃ failing last, session.Proceeds failing ∧ failing.advance = (.failed failure, last) ∧
      after = { last with state := .stopped } := by
  induction turns generalizing session with
  | zero => cases executed
  | succ turns ih =>
      unfold execute at executed
      split at executed
      · cases executed
      · split at executed
        · next next turn =>
            obtain ⟨failing, last, proceeds, fails, stopped⟩ := ih executed
            exact ⟨failing, last, .head turn proceeds, fails, stopped⟩
        · cases executed
        · next cause last turn =>
            obtain ⟨same, rfl⟩ := Prod.mk.inj executed
            cases same
            exact ⟨session, last, .refl, turn, rfl⟩
        · cases executed

theorem Staged.proceeds {session later : Session} (staged : session.Staged)
    (proceeds : session.Proceeds later) :
    later.Staged ∧ later.timeLimit = session.timeLimit := by
  induction proceeds with
  | refl => exact ⟨staged, rfl⟩
  | @tail middle next _ turn ih =>
      have advanced := ih.1.advance
      have settings := middle.advance_settings.timeLimit
      rw [turn] at advanced settings
      exact ⟨advanced, settings.trans ih.2⟩

theorem Proceeds.fine {session later : Session} (proceeds : session.Proceeds later)
    {invariant : LocalInvariant} (kept : invariant.KeptByTurns)
    (fine : invariant.SessionFine session) : invariant.SessionFine later := by
  induction proceeds with
  | refl => exact fine
  | tail _ turn ih =>
      have advanced := (LocalInvariant.advance_fine kept ih).session
      rw [turn] at advanced
      exact advanced

/-- A run without a time limit fails in a context of one of the scripts. -/
theorem execute_located {session after : Session} {failure : RuntimeError} {turns : Nat}
    {scripts : Script → Prop} (staged : session.Staged) (unlimited : session.timeLimit = none)
    (attends : (attending scripts).SessionFine session)
    (executed : session.execute turns = (.failed failure, after)) :
    ∃ context statement cause span, failure = .placed cause span ∧ scripts context.script ∧
      session.RunFails context statement cause span after := by
  obtain ⟨failing, last, proceeds, fails, stopped⟩ := execute_failed executed
  obtain ⟨reached, sameLimit⟩ := staged.proceeds proceeds
  have balanced := LocalInvariant.reached_fine Balance.kept reached.reached
  obtain ⟨context, activity, below, statement, cause, span, stack, among, rfl, stands, failsAt⟩ :=
    advance_located reached.layout (proceeds.fine Attending.kept attends) balanced
      (sameLimit.trans unlimited) fails
  exact ⟨context, statement, cause, span, rfl, among, proceeds, stack, stands, failsAt, fails,
    stopped⟩

/-- A run fails at the place of an expression of the script, or at the one of the statement. -/
theorem RunFails.place {session after : Session} {context : Context} {statement : Statement}
    {cause : RuntimeCause} {span : Span}
    (fails : session.RunFails context statement cause span after) :
    (∃ expression ∈ context.script.expressions, expression.span = span) ∨
      statement.span? = some span := by
  obtain ⟨_, _, _, failsAt, _, _⟩ := fails
  cases failsAt with
  | node comes | call comes =>
      obtain ⟨next, rest, _, found⟩ := comes
      exact .inl ⟨_, Array.mem_of_getElem? found, rfl⟩
  | begun _ place | given _ place => exact .inr place

/-- The statement that a run fails on is one of the script. -/
theorem RunFails.found {session after : Session} {context : Context} {statement : Statement}
    {cause : RuntimeCause} {span : Span}
    (fails : session.RunFails context statement cause span after) :
    ∃ slot ∈ context.script.statements, slot.node = statement := by
  obtain ⟨_, _, ⟨this, _, found⟩, _, _, _⟩ := fails
  obtain ⟨slot, present, same⟩ := Option.map_eq_some_iff.mp found
  exact ⟨slot, Array.mem_of_getElem? present, same⟩

/-- A run fails within the source of the script. -/
theorem RunFails.within {session after : Session} {context : Context} {statement : Statement}
    {cause : RuntimeCause} {span : Span} {source : String}
    (fails : session.RunFails context statement cause span after)
    (placed : context.script.Placed source) : span.Within source := by
  rcases fails.place with ⟨expression, member, rfl⟩ | own
  · exact placed.expressions expression member
  · obtain ⟨slot, member, rfl⟩ := fails.found
    exact (placed.statements slot member).within span own

/-- A run of scripts without a time limit that fails does so in a turn of the innermost
context, and its error keeps the place that it has there, whichever calls it goes through:
the place of the node which fails or whose call is refused, or else the one of the statement
that the context stands on. Node and statement are of the context's script, so the place is
within the source of this script; the place of a loop over a value reaches from its keyword
to what it goes through. -/
theorem failures_are_located {session after : Session} {failure : RuntimeError} {turns : Nat}
    (staged : session.Staged) (unlimited : session.timeLimit = none)
    (executed : session.execute turns = (.failed failure, after)) :
    ∃ context statement cause span, failure = .placed cause span ∧
      session.RunFails context statement cause span after ∧
      ((∃ expression ∈ context.script.expressions, expression.span = span) ∨
        statement.span? = some span) ∧
      (∃ source, context.script.ReadFrom source) ∧
      ∀ source, context.script.ReadFrom source → span.Within source ∧
        ∀ item iterable body own, statement = .forLoop item iterable body own →
          own.FromKeyword source context.script iterable := by
  have attends := LocalInvariant.reached_fine Attending.keptByHosts staged.reached
  obtain ⟨context, statement, cause, span, located, parsed, fails⟩ :=
    execute_located staged unlimited attends executed
  refine ⟨context, statement, cause, span, located, fails, fails.place, parsed.source, ?_⟩
  intro source read
  refine ⟨fails.within read.placed, fun item iterable body own same => ?_⟩
  obtain ⟨slot, member, rfl⟩ := fails.found
  exact (read.placed.statements slot member).loop item iterable body own same

/-- The second script calls a function of the first one, in which an operator fails. The
error has the place of the operator with its operands. -/
theorem failure_is_located_in_callee :
    ∃ session : Session, session.Staged ∧ session.timeLimit = none ∧
      ∃ turns failure after, session.execute turns = (.failed failure, after) ∧
        ∃ context statement cause, failure = .placed cause ⟨15, 8⟩ ∧
          session.RunFails context statement cause ⟨15, 8⟩ after := by
  have passed : ((Script.ofSource "def f()\nreturn 1 + None\nend\n").toOption.any fun script =>
      ((Session.new none).run script).toOption.any fun defining =>
        (Script.ofSource "x = f()\n").toOption.any fun script =>
          ((defining.execute 50).2.run script).toOption.any fun started =>
            failsIn (started.execute 50) ⟨15, 8⟩ && started.timeLimit.isNone) = true := by
    decide +kernel
  obtain ⟨script, defining, accepted, begun, passed⟩ := eq_of_runs passed
  obtain ⟨later, started, laterAccepted, laterBegun, passed⟩ := eq_of_runs passed
  obtain ⟨fails, unlimited⟩ := (Bool.and_eq_true _ _).mp passed
  obtain ⟨failure, after, executed, place⟩ := eq_of_failsIn fails
  have first : defining.Staged := .run (.new none) (Script.parsed_ofSource accepted) begun
  have staged : started.Staged :=
    .run (first.execute 50) (Script.parsed_ofSource laterAccepted) laterBegun
  have unlimited := Option.isNone_iff_eq_none.mp unlimited
  obtain ⟨context, statement, cause, span, rfl, fails, _⟩ :=
    failures_are_located staged unlimited executed
  obtain rfl := Option.some.inj place
  exact ⟨started, staged, unlimited, 50, _, after, executed, context, statement, cause, rfl, fails⟩

end Session

end ScriptEngine
