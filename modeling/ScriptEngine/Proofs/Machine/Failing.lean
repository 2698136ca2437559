import ScriptEngine.Proofs.Evaluation.CallFree
import ScriptEngine.Proofs.Machine.Loops

/-!
# Statements that fail

A statement changes nothing before all its expressions have been evaluated and all its checks have
been passed. So if a statement whose expressions contain no calls fails, then the session is as
it was, but for new arrays that only the evaluation can refer to. The next statement that is
begun clears the evaluation, so the statement can be executed again.
-/

set_option autoImplicit false

namespace ScriptEngine

/-- The heap has the records, functions and arrays that it had, and perhaps more arrays behind
them. -/
structure Heap.Extends (before after : Heap) : Prop where
  objects : before.KeepsObjects after
  arrays : before.Appends after

namespace Heap.Extends

theorem refl (heap : Heap) : heap.Extends heap :=
  ⟨.refl heap, .refl heap⟩

theorem trans {first second third : Heap} (early : first.Extends second)
    (late : second.Extends third) : first.Extends third :=
  ⟨early.objects.trans late.objects, early.arrays.trans late.arrays⟩

end Heap.Extends

/-- The second value is the first one, or what the first refers to leads to it: items of arrays,
members of records, and the records in which functions look names up. -/
inductive Heap.Reaches (heap : Heap) : Value → Value → Prop where
  | self (value : Value) : Reaches heap value value
  | item {reference : ArrayRef} {inner last : Value} (held : inner ∈ heap.array reference)
      (further : Reaches heap inner last) : Reaches heap (.array reference) last
  | member {reference : RecordRef} {name : String} {inner last : Value}
      (held : (heap.record reference).get? name = some inner)
      (further : Reaches heap inner last) : Reaches heap (.record reference) last
  | globals {function : FunctionRef} {reference : RecordRef} {last : Value}
      (held : (heap.function function).globals = some reference)
      (further : Reaches heap (.record reference) last) : Reaches heap (.function function) last

/-- No new array can be reached from what was there before. -/
theorem Heap.Extends.old_of_reaches {before after : Heap} (grows : before.Extends after)
    (closed : before.Closed) {value last : Value} (reaches : after.Reaches value last)
    (present : value.Present before) : last.Present before := by
  induction reaches with
  | self value => exact present
  | @item reference inner last held further ih =>
      rw [grows.arrays.array present] at held
      exact ih (closed.items reference inner held)
  | @member reference name inner last held further ih =>
      simp only [record, grows.objects.records] at held
      exact ih (closed.members reference name inner held)
  | globals held further ih => exact ih trivial

theorem AssignOperator.extends_combine {operator : AssignOperator} {heap grown : Heap}
    {current : Unit → Except RuntimeCause Value} {value stored : Value}
    (combined : operator.combine heap current value = .ok (stored, grown)) :
    heap.Extends grown :=
  ⟨keepsObjects_combine combined, appends_combine combined⟩

namespace Evaluation

theorem advance_extends (evaluation : Evaluation) (heap : Heap) :
    heap.Extends (evaluation.advance heap).2.2 :=
  ⟨(evaluation.advance_keeps heap).2, evaluation.advance_appends heap⟩

namespace KeepsPlace

variable {first second third : Evaluation}

theorem trans (early : first.KeepsPlace second) (late : second.KeepsPlace third) :
    first.KeepsPlace third :=
  ⟨late.script.trans early.script, late.chain.trans early.chain⟩

/-- Whatever an evaluation has left is cleared when an expression is begun. -/
theorem begin (place : first.KeepsPlace second) (expression : ExpressionRef) :
    second.begin expression = first.begin expression := by
  obtain ⟨script, chain, _, _, _, _⟩ := second
  obtain ⟨rfl, rfl⟩ := place
  rfl

end KeepsPlace

end Evaluation

/-!
## Statements
-/

/-- The expressions that are still to be evaluated after the one that is waited for. -/
def Continuation.expressions : Continuation → List ExpressionRef
  | .print _ rest => rest
  | .assignMemberOf _ _ value _ => [value]
  | .assignElementOf index value _ _ => [index, value]
  | .assignElementAt _ value _ _ => [value]
  | .branch _ rest _ _ => rest.map Prod.fst
  | .discard | .assignName .. | .assignMember .. | .assignElement .. | .whileLoop ..
  | .forLoop .. | .returnValue => []

/-- The statement neither jumps within its loops nor runs a block of a record. -/
def Statement.isOrdinary : Statement → Bool
  | .breakLoops .. | .continueLoop _ | .record .. => false
  | _ => true

/-- What a statement came to: as long as it is not done, the context is as it was, there are new
arrays at most, and whatever is left to be evaluated contains no call. -/
def StatementOutcome.Spares (context : Context) (heap : Heap) : StatementOutcome → Prop
  | .done .. | .line .. => True
  | .evaluate expression continuation after grown =>
      after = context ∧ heap.Extends grown ∧ context.script.CallFree expression ∧
        ∀ later ∈ continuation.expressions, context.script.CallFree later
  | .declare .. => False
  | .failed _ after grown => after = context ∧ heap.Extends grown

namespace Context

variable {context : Context} (heap : Heap)

private theorem spares_tryBranches {branches : List (ExpressionRef × Option StatementRef)}
    (free : ∀ condition ∈ branches.map Prod.fst, context.script.CallFree condition)
    (otherwise : Option (Option StatementRef)) (following : Option StatementRef) :
    (context.tryBranches heap branches otherwise following).Spares context heap := by
  cases branches with
  | cons branch rest =>
      obtain ⟨first, others⟩ := List.forall_mem_cons.mp free
      exact ⟨rfl, .refl heap, first, others⟩
  | nil => cases otherwise <;> trivial

private theorem spares_nextPass (loop : StatementRef) (item : String)
    (body : Option StatementRef) (origin : Context) :
    (context.nextPass heap loop item body).Spares origin heap := by
  unfold nextPass
  split <;> trivial

theorem spares_beginStatement (this : StatementRef) {statement : Statement}
    (ordinary : statement.isOrdinary = true)
    (free : ∀ node ∈ statement.expressions, context.script.CallFree node) :
    (context.beginStatement heap this statement).Spares context heap := by
  have same := Heap.Extends.refl heap
  cases statement with
  | expression node => exact ⟨rfl, same, free node List.mem_cons_self, List.forall_mem_nil _⟩
  | print values => cases values with
    | nil => trivial
    | cons first rest =>
        obtain ⟨first, others⟩ := List.forall_mem_cons.mp free
        exact ⟨rfl, same, first, others⟩
  | assign target operator value span => cases target with
    | name name => exact ⟨rfl, same, free value List.mem_cons_self, List.forall_mem_nil _⟩
    | member | element =>
        obtain ⟨first, others⟩ := List.forall_mem_cons.mp free
        exact ⟨rfl, same, first, others⟩
  | branch branches otherwise => exact spares_tryBranches heap free _ _
  | whileLoop condition => exact ⟨rfl, same, free condition List.mem_cons_self, List.forall_mem_nil _⟩
  | forLoop item iterable body span =>
      unfold beginStatement
      dsimp only
      split
      · exact spares_nextPass heap this item body context
      · exact ⟨rfl, same, free iterable List.mem_cons_self, List.forall_mem_nil _⟩
  | breakLoops | continueLoop | record => cases ordinary
  | returnValue value => cases value with
    | none => trivial
    | some node => exact ⟨rfl, same, free node List.mem_cons_self, List.forall_mem_nil _⟩
  | pass | define => trivial
  | delete name span =>
      unfold beginStatement
      dsimp only
      split
      · trivial
      · exact ⟨rfl, same⟩

theorem spares_deliver {continuation : Continuation}
    (free : ∀ node ∈ continuation.expressions, context.script.CallFree node) (value : Value) :
    (context.deliver heap continuation value).Spares context heap := by
  have same := Heap.Extends.refl heap
  cases continuation with
  | discard | returnValue => trivial
  | print line rest => cases rest with
    | nil => trivial
    | cons next rest =>
        obtain ⟨first, others⟩ := List.forall_mem_cons.mp free
        exact ⟨rfl, same, first, others⟩
  | assignName | assignMember =>
      simp only [deliver]
      split
      · trivial
      · exact ⟨rfl, same⟩
  | assignMemberOf name operator expression span =>
      simp only [deliver]
      split
      · exact ⟨rfl, same, free expression List.mem_cons_self, List.forall_mem_nil _⟩
      · exact ⟨rfl, same⟩
  | assignElementOf | assignElementAt =>
      obtain ⟨first, others⟩ := List.forall_mem_cons.mp free
      exact ⟨rfl, same, first, others⟩
  | assignElement =>
      simp only [deliver]
      split
      · next combined =>
          split
          · trivial
          · exact ⟨rfl, AssignOperator.extends_combine combined⟩
      · exact ⟨rfl, same⟩
  | branch body rest otherwise following =>
      simp only [deliver]
      split
      · trivial
      · exact spares_tryBranches heap free otherwise following
  | whileLoop =>
      simp only [deliver]
      split <;> trivial
  | forLoop loop item body span =>
      simp only [deliver]
      split
      · exact spares_nextPass heap loop item body context
      · exact ⟨rfl, same⟩

/-- A statement that begins with an expression does so whatever else the evaluation holds. -/
def Evaluates (context : Context) (this : StatementRef) (statement : Statement) : Prop :=
  ∃ expression continuation, ∀ heap evaluation, context.evaluation.KeepsPlace evaluation →
    ({ context with evaluation } : Context).beginStatement heap this statement =
      .evaluate expression continuation { context with evaluation } heap

theorem evaluates_of_begin {this : StatementRef} {statement : Statement}
    {expression : ExpressionRef} {continuation : Continuation} {after : Context} {grown : Heap}
    (begun : context.beginStatement heap this statement =
      .evaluate expression continuation after grown) : context.Evaluates this statement := by
  refine ⟨expression, continuation, fun other evaluation place => ?_⟩
  cases statement with
  | expression | whileLoop =>
      cases begun
      rfl
  | print values => cases values <;> cases begun; rfl
  | assign target => cases target <;> cases begun <;> rfl
  | returnValue value => cases value <;> cases begun; rfl
  | branch branches otherwise =>
      have script : ({ context with evaluation } : Context).script = context.script := place.script
      cases branches with
      | cons branch rest =>
          cases begun
          simp only [beginStatement, script]
          rfl
      | nil => cases otherwise <;> cases begun
  | forLoop item iterable body span =>
      have same : ({ context with evaluation } : Context).iteration = context.iteration := rfl
      simp only [beginStatement, same] at begun ⊢
      split at begun
      · unfold nextPass at begun
        split at begun <;> cases begun
      · cases begun
        rfl
  | breakLoops | continueLoop | delete =>
      simp only [beginStatement] at begun
      split at begun <;> cases begun
  | pass | define | record => cases begun

end Context

namespace Session

/-!
## Turns of a statement
-/

/-- The statement of `context` that is begun in `session` waits for the value of an expression,
and so far it has made arrays at most. -/
inductive Waits (session : Session) (context : Context) (below : List Activation) :
    Session → Prop where
  | intro {evaluation : Evaluation} {heap : Heap} {continuation : Continuation}
      (grows : session.heap.Extends heap) (place : context.evaluation.KeepsPlace evaluation)
      (pending : evaluation.CallFree)
      (later : ∀ node ∈ continuation.expressions, context.script.CallFree node) :
      Waits session context below
        { session with
          heap, now := session.now + 1
          stack := ⟨{ context with evaluation }, .evaluating continuation⟩ :: below }

/-- What a turn of the statement of `context` that is begun in `session` comes to. If it fails,
then the error is raised from a session that has new arrays at most. -/
inductive StatementTurn (session : Session) (context : Context) (below : List Activation)
    (answer : Progress × Session) : Prop where
  | waits (working : answer.1 = .working) (waits : Waits session context below answer.2)
  /-- The turn goes on forever, so the statement still waits. -/
  | stuck (endless : answer.1 = .endless) (waits : Waits session context below answer.2)
  | done (working : answer.1 = .working)
      (rests : ∃ after, answer.2.stack = ⟨after, .resting⟩ :: below)
  | fails {reason : RuntimeError} {evaluation : Evaluation} {heap : Heap}
      (grows : session.heap.Extends heap) (place : context.evaluation.KeepsPlace evaluation)
      (raised : answer = ({ session with heap, now := session.now + 1 } : Session).raise reason
        ⟨{ context with evaluation }, .resting⟩ below)

variable {session : Session} {context : Context} {below : List Activation}

/-- An error is raised alike, whatever its context is in the middle of. -/
theorem raise_resting (session : Session) (failure : RuntimeError) (context : Context)
    (activity : Activity) (below : List Activation) :
    session.raise failure ⟨context, activity⟩ below =
      session.raise failure ⟨context, .resting⟩ below := by
  cases below with
  | nil => rfl
  | cons caller below =>
      obtain ⟨waiting, activity⟩ := caller
      cases activity <;> rfl

theorem stack_of_raise (session : Session) (failure : RuntimeError) (top : Activation)
    (below : List Activation) :
    ∃ after rest, (session.raise failure top below).2.stack = ⟨after, .resting⟩ :: rest := by
  unfold raise
  induction below generalizing failure top session with
  | nil => exact ⟨_, _, rfl⟩
  | cons caller below ih =>
      obtain ⟨waiting, activity⟩ := caller
      cases activity with
      | resting | evaluating => exact ⟨_, _, rfl⟩
      | calling | declaring => exact ih { session with heap := top.context.release session.heap } _ _

/-- The context of a statement that has made arrays at most goes on with what the statement
came to. -/
private theorem statementTurn_of_spares {evaluation : Evaluation} {heap : Heap}
    {outcome : StatementOutcome} (grows : session.heap.Extends heap)
    (place : context.evaluation.KeepsPlace evaluation)
    (spares : outcome.Spares { context with evaluation } heap) (held : Heap)
    (stack : List Activation) :
    StatementTurn session context below
      (({ session with heap := held, now := session.now + 1, stack } : Session).settleStatement
        outcome below) := by
  cases outcome with
  | done after grown => exact .done rfl ⟨after, rfl⟩
  | line text after grown => exact .done rfl ⟨after, rfl⟩
  | evaluate expression continuation after grown =>
      obtain ⟨rfl, more, first, later⟩ := spares
      refine .waits rfl (.intro (grows.trans more) ?_ (Evaluation.callFree_begin first) ?_)
      · exact ⟨place.script, place.chain⟩
      · intro node member
        have nodeFree : evaluation.script.CallFree node := later node member
        rwa [place.script] at nodeFree
  | declare => exact spares.elim
  | failed failure after grown =>
      obtain ⟨rfl, more⟩ := spares
      exact .fails (grows.trans more) place rfl

theorem Waits.stack {current : Session} (waits : Waits session context below current) :
    ∃ after continuation, current.stack = ⟨after, .evaluating continuation⟩ :: below := by
  cases waits
  exact ⟨_, _, rfl⟩

/-- While a statement without calls waits for a value, it makes arrays at most in each turn. -/
theorem Waits.advance {current : Session} (waits : Waits session context below current) :
    StatementTurn session context below current.advance := by
  have still := waits
  obtain ⟨grows, place, pending, later⟩ := waits
  next evaluation heap continuation =>
    have asked := pending.advance heap
    have more := evaluation.advance_extends heap
    have kept := (evaluation.advance_keeps heap).1
    unfold Session.advance
    dsimp only
    generalize evaluation.advance heap = answer at asked more kept
    obtain ⟨turn, left, grown⟩ := answer
    obtain ⟨leftFree, calls⟩ := asked
    have stays := place.trans kept
    cases turn with
    | working => exact .waits rfl (.intro (grows.trans more) stays leftFree later)
    | call request scope => exact (calls request scope rfl).elim
    | finished value =>
        have free (node : ExpressionRef) (member : node ∈ continuation.expressions) :
            ({ context with evaluation := left } : Context).script.CallFree node := by
          have nodeFree := later node member
          rwa [Context.script, ← stays.script] at nodeFree
        exact statementTurn_of_spares (grows.trans more) stays
          (Context.spares_deliver grown free value) _ _
    | failed failure =>
        exact .fails (grows.trans more) stays (raise_resting _ _ _ _ _)
    | endless => exact .stuck rfl still

section

variable (stack : session.stack = ⟨context, .resting⟩ :: below) {this : StatementRef}
  {statement : Statement} (current : context.current = some this)
  (found : context.script.statement? this = some statement)

include stack current found

theorem begin_turn (ordinary : statement.isOrdinary = true)
    (free : ∀ node ∈ statement.expressions, context.script.CallFree node) :
    StatementTurn session context below session.advance := by
  cases overdue : ({ session with now := session.now + 1 } : Session).isOverdue with
  | none =>
      rw [advance_of_begin stack current found overdue]
      have begun := Context.spares_beginStatement session.heap this ordinary free
      exact statementTurn_of_spares (.refl _) ⟨rfl, rfl⟩ begun _ _
  | some limit => exact .fails (.refl _) ⟨rfl, rfl⟩ (advance_of_overdue stack overdue)

/-- A statement that waits for a value has begun with an expression. -/
theorem evaluates_of_waits (waits : Waits session context below session.advance.2) :
    context.Evaluates this statement := by
  obtain ⟨_, _, evaluating⟩ := waits.stack
  cases overdue : ({ session with now := session.now + 1 } : Session).isOverdue with
  | some limit =>
      obtain ⟨_, _, rests⟩ := stack_of_raise { session with now := session.now + 1 }
        (.unplaced (.timeLimit limit)) ⟨context, .resting⟩ below
      rw [advance_of_overdue stack overdue, rests] at evaluating
      cases evaluating
  | none =>
      rw [advance_of_begin stack current found overdue] at evaluating
      cases begun : context.beginStatement session.heap this statement with
      | evaluate expression continuation after grown =>
          exact Context.evaluates_of_begin session.heap begun
      | done | line | declare =>
          rw [begun] at evaluating
          cases evaluating
      | failed failure after grown =>
          obtain ⟨_, _, rests⟩ := stack_of_raise
            { session with heap := grown, now := session.now + 1 } failure ⟨after, .resting⟩ below
          rw [begun, settleStatement, rests] at evaluating
          cases evaluating

omit stack in
/-- What the evaluation has left makes no difference when the statement is begun again. -/
theorem advance_again (evaluates : context.Evaluates this statement) {evaluation : Evaluation}
    (place : context.evaluation.KeepsPlace evaluation) {repaired : Session}
    (again : repaired.stack = ⟨{ context with evaluation }, .resting⟩ :: below)
    (inTime : ({ repaired with now := repaired.now + 1 } : Session).isOverdue = none) :
    repaired.advance = ({ repaired with now := repaired.now + 1 } : Session).settleStatement
      (context.beginStatement repaired.heap this statement) below := by
  obtain ⟨expression, continuation, begins⟩ := evaluates
  have script : ({ context with evaluation } : Context).script = context.script := place.script
  have begun : context.beginStatement repaired.heap this statement =
      .evaluate expression continuation context repaired.heap :=
    begins repaired.heap context.evaluation ⟨rfl, rfl⟩
  rw [advance_of_begin again current (by rwa [script]) inTime, begins _ _ place, begun]
  simp only [settleStatement, place.begin]

end

/-!
## Executions of statements
-/

/-- The statement that the first turn begins is still being executed after so many turns: since
then the innermost context has waited for values of expressions. -/
def Executing (session : Session) (turns : Nat) : Prop :=
  ∀ turn, 0 < turn → turn ≤ turns → ∃ context continuation below,
    (session.turnsFrom turn).stack = ⟨context, .evaluating continuation⟩ :: below

/-- The innermost context rests at an ordinary statement, and its script has no calls. -/
def standsWithoutCalls (session : Session) : Bool :=
  match session.stack with
  | ⟨context, .resting⟩ :: _ =>
      (context.current.bind context.script.statement?).any Statement.isOrdinary &&
        !context.script.expressions.any Expression.isCall
  | _ => false

theorem eq_of_standsWithoutCalls (stands : session.standsWithoutCalls = true) :
    ∃ context below this statement, session.stack = ⟨context, .resting⟩ :: below ∧
      context.current = some this ∧ context.script.statement? this = some statement ∧
      statement.isOrdinary = true ∧ ∀ node, context.script.CallFree node := by
  unfold standsWithoutCalls at stands
  split at stands
  · next context below stack =>
      obtain ⟨ordinary, plain⟩ := Bool.and_eq_true_iff.mp stands
      obtain ⟨statement, found, ordinary⟩ := (Option.any_eq_true _ _).mp ordinary
      obtain ⟨this, current, found⟩ := Option.bind_eq_some_iff.mp found
      exact ⟨context, below, this, statement, stack, current, found, ordinary,
        Script.callFree_of_none (by simpa only [Bool.not_eq_true'] using plain)⟩
  · cases stands

theorem StatementTurn.waits_of_evaluating {answer : Progress × Session}
    (turn : StatementTurn session context below answer) {after : Context}
    {continuation : Continuation} {rest : List Activation}
    (evaluating : answer.2.stack = ⟨after, .evaluating continuation⟩ :: rest) :
    Waits session context below answer.2 := by
  cases turn with
  | waits _ waits => exact waits
  | stuck _ waits => exact waits
  | done working rests =>
      obtain ⟨resting, stack⟩ := rests
      rw [stack] at evaluating
      cases evaluating
  | fails grows place raised =>
      obtain ⟨resting, others, stack⟩ := stack_of_raise _ _ _ _
      rw [raised, stack] at evaluating
      cases evaluating

/-- A session that is settled is so again when the context rests. -/
theorem isSettled_of_rests (stack : session.stack = ⟨context, .resting⟩ :: below)
    (settled : session.isSettled = true) {other : Session} {after : Context}
    (rests : other.stack = ⟨after, .resting⟩ :: below) : other.isSettled = true := by
  rw [isSettled, stack] at settled
  rw [isSettled, rests]
  cases below <;> exact settled

theorem finish_not_failed (settled : session.isSettled = true) {more : Nat}
    {failure : RuntimeError} {after : Session} :
    session.finishStatement more ≠ (.failed failure, after) := by
  cases more with
  | zero => nofun
  | succ more => simp [finishStatement, settled]

theorem finish_of_step {more : Nat} {failure : RuntimeError} {after : Session}
    (fails : session.step more = (.failed failure, after))
    (working : session.advance.1 = .working) :
    finishStatement more session.advance.2 = (.failed failure, after) := by
  unfold step at fails
  generalize session.advance = answer at fails working ⊢
  obtain ⟨progress, following⟩ := answer
  obtain rfl : progress = .working := working
  dsimp only at fails ⊢
  generalize finishStatement more following = finished at fails
  obtain ⟨outcome, last⟩ := finished
  cases outcome <;> cases fails
  rfl

/-- Nobody waits for the context of a settled session, so an error is raised in place. -/
theorem raise_of_settled (stack : session.stack = ⟨context, .resting⟩ :: below)
    (settled : session.isSettled = true) (raising : Session) (failure : RuntimeError)
    (after : Context) :
    raising.raise failure ⟨after, .resting⟩ below =
      (.failed failure, { raising with stack := ⟨after, .resting⟩ :: below }) := by
  rw [isSettled, stack] at settled
  cases below with
  | nil => rfl
  | cons caller below =>
      obtain ⟨waiting, activity⟩ := caller
      cases activity with
      | resting | evaluating => rfl
      | calling | declaring => cases settled

section

variable (stack : session.stack = ⟨context, .resting⟩ :: below) {this : StatementRef}
  {statement : Statement} (current : context.current = some this)
  (found : context.script.statement? this = some statement)
  (ordinary : statement.isOrdinary = true)
  (free : ∀ node ∈ statement.expressions, context.script.CallFree node)

include stack current found ordinary free

theorem waits_of_executing {turns : Nat} (executing : session.Executing (turns + 1)) :
    Waits session context below (session.turnsFrom (turns + 1)) ∧
      context.Evaluates this statement := by
  induction turns with
  | zero =>
      obtain ⟨_, _, _, evaluating⟩ := executing 1 Nat.one_pos (Nat.le_refl 1)
      have waits := (begin_turn stack current found ordinary free).waits_of_evaluating evaluating
      exact ⟨waits, evaluates_of_waits stack current found waits⟩
  | succ turns ih =>
      obtain ⟨waits, evaluates⟩ := ih fun turn first last =>
        executing turn first (Nat.le_succ_of_le last)
      obtain ⟨_, _, _, evaluating⟩ := executing (turns + 2) (Nat.succ_pos _) (Nat.le_refl _)
      rw [turnsFrom_succ] at evaluating ⊢
      exact ⟨waits.advance.waits_of_evaluating evaluating, evaluates⟩

/-- If the turn that begins the statement fails, then not even the evaluation is touched. -/
theorem raised_of_begin {failure : RuntimeError} {after : Session}
    (fails : session.advance = (.failed failure, after)) :
    ∃ reason heap, session.heap.Extends heap ∧
      session.advance = ({ session with heap, now := session.now + 1 } : Session).raise reason
        ⟨context, .resting⟩ below := by
  cases overdue : ({ session with now := session.now + 1 } : Session).isOverdue with
  | some limit => exact ⟨_, _, .refl _, advance_of_overdue stack overdue⟩
  | none =>
      have spares := Context.spares_beginStatement session.heap this ordinary free
      rw [advance_of_begin stack current found overdue] at fails ⊢
      cases begun : context.beginStatement session.heap this statement with
      | failed reason left grown =>
          rw [begun] at spares
          obtain ⟨rfl, grows⟩ := spares
          exact ⟨reason, grown, grows, rfl⟩
      | done | line | evaluate | declare =>
          rw [begun] at fails
          cases fails

/-- The failing turn raises an error from a session that has new arrays at most, where the same
statement can be begun again. -/
theorem raised_of_executing {turns : Nat} (executing : session.Executing turns)
    {failure : RuntimeError} {after : Session}
    (fails : (session.turnsFrom turns).advance = (.failed failure, after)) :
    ∃ reason evaluation heap, session.heap.Extends heap ∧
      context.evaluation.KeepsPlace evaluation ∧
      (evaluation = context.evaluation ∨ context.Evaluates this statement) ∧
      (session.turnsFrom turns).advance =
        ({ session with heap, now := session.now + 1 } : Session).raise reason
          ⟨{ context with evaluation }, .resting⟩ below := by
  cases turns with
  | zero =>
      obtain ⟨reason, heap, grows, raised⟩ :=
        raised_of_begin stack current found ordinary free fails
      exact ⟨reason, context.evaluation, heap, grows, ⟨rfl, rfl⟩, .inl rfl, raised⟩
  | succ turns =>
      obtain ⟨waits, evaluates⟩ :=
        waits_of_executing stack current found ordinary free executing
      cases waits.advance with
      | waits unfailed | stuck unfailed | done unfailed =>
          rw [fails] at unfailed
          cases unfailed
      | fails grows place raised => exact ⟨_, _, _, grows, place, .inr evaluates, raised⟩

private theorem executing_of_finish (settled : session.isSettled = true) {more turns : Nat}
    (executing : session.Executing (turns + 1)) {failure : RuntimeError} {after : Session}
    (fails : finishStatement more (session.turnsFrom (turns + 1)) = (.failed failure, after)) :
    ∃ turns, session.Executing turns ∧
      (session.turnsFrom turns).advance = (.failed failure, after) := by
  induction more generalizing turns with
  | zero => cases fails
  | succ more ih =>
      obtain ⟨waits, _⟩ := waits_of_executing stack current found ordinary free executing
      obtain ⟨_, _, evaluating⟩ := waits.stack
      have busy : (session.turnsFrom (turns + 1)).isSettled = false := by
        rw [isSettled, evaluating]
        cases below <;> rfl
      rw [finishStatement, busy] at fails
      have turn := waits.advance
      generalize answer : (session.turnsFrom (turns + 1)).advance = next at turn fails
      obtain ⟨progress, following⟩ := next
      cases turn with
      | waits working waits =>
          obtain rfl : progress = .working := working
          have later : session.turnsFrom (turns + 2) = following := by
            rw [turnsFrom_succ, answer]
          refine @ih (turns + 1) (fun turn first last => ?_) (later ▸ fails)
          rcases Nat.lt_or_eq_of_le last with earlier | rfl
          · exact executing turn first (Nat.le_of_lt_succ earlier)
          · obtain ⟨_, _, evaluating⟩ := waits.stack
            exact ⟨_, _, _, later ▸ evaluating⟩
      | stuck endless =>
          obtain rfl : progress = .endless := endless
          cases fails
      | done working rests =>
          obtain rfl : progress = .working := working
          obtain ⟨_, rests⟩ := rests
          exact (finish_not_failed (isSettled_of_rests stack settled rests) fails).elim
      | fails grows place raised =>
          cases raised
          cases fails
          exact ⟨turns + 1, executing, answer⟩

/-- A step that fails is such an execution. -/
theorem executing_of_step (settled : session.isSettled = true) {more : Nat}
    {failure : RuntimeError} {after : Session}
    (fails : session.step more = (.failed failure, after)) :
    ∃ turns, session.Executing turns ∧
      (session.turnsFrom turns).advance = (.failed failure, after) := by
  have turn := begin_turn stack current found ordinary free
  have finish := finish_of_step fails
  generalize answer : session.advance = next at turn finish
  obtain ⟨progress, following⟩ := next
  cases turn with
  | waits working waits =>
      have first : session.turnsFrom 1 = following := congrArg Prod.snd answer
      have executing : session.Executing 1 := by
        intro turn positive last
        obtain rfl := Nat.le_antisymm last positive
        obtain ⟨_, _, evaluating⟩ := waits.stack
        exact ⟨_, _, _, first ▸ evaluating⟩
      exact executing_of_finish stack current found ordinary free settled executing
        (first ▸ finish working)
  | stuck endless =>
      obtain rfl : progress = .endless := endless
      rw [step, answer] at fails
      cases fails
  | done working rests =>
      obtain ⟨_, rests⟩ := rests
      exact (finish_not_failed (isSettled_of_rests stack settled rests) (finish working)).elim
  | fails grows place raised =>
      cases raised
      rw [step, answer] at fails
      cases fails
      exact ⟨0, fun turn positive last => absurd positive (Nat.not_lt.mpr last), answer⟩

/-- Suppose that a statement whose expressions contain no calls fails. Then the error is raised
from a session that is the one before, but for the time, new arrays, and what is left of the
evaluation; nothing that was there leads to a new array. This is also the session in which a
settled one ends, and a step of a host that fails is such an execution. Whatever becomes of the
session meanwhile, the next turn begins the same statement in the context that it was begun in
before. -/
theorem failing_statement_has_no_effect (tidy : session.Tidy) :
    session.Present ∧
      (∀ turns failure after, session.Executing turns →
        (session.turnsFrom turns).advance = (.failed failure, after) →
        ∃ reason evaluation heap, session.heap.Extends heap ∧
          context.evaluation.KeepsPlace evaluation ∧
          (∀ value reference, value.Present session.heap → heap.Reaches value (.array reference) →
            reference.address < session.heap.arrays.size) ∧
          (.failed failure, after) =
            ({ session with heap, now := session.now + 1 } : Session).raise reason
              ⟨{ context with evaluation }, .resting⟩ below ∧
          (session.isSettled = true → failure = reason ∧ after =
            { session with
              heap, now := session.now + 1
              stack := ⟨{ context with evaluation }, .resting⟩ :: below }) ∧
          ∀ repaired : Session,
            repaired.stack = ⟨{ context with evaluation }, .resting⟩ :: below →
            ({ repaired with now := repaired.now + 1 } : Session).isOverdue = none →
            repaired.advance =
              ({ repaired with now := repaired.now + 1 } : Session).settleStatement
                (context.beginStatement repaired.heap this statement) below) ∧
      ∀ more failure after, session.isSettled = true →
        session.step more = (.failed failure, after) →
        ∃ turns, session.Executing turns ∧
          (session.turnsFrom turns).advance = (.failed failure, after) := by
  refine ⟨tidy.present, fun turns failure after executing fails => ?_,
    fun more failure after settled => executing_of_step stack current found ordinary free settled⟩
  obtain ⟨reason, evaluation, heap, grows, place, left, raised⟩ :=
    raised_of_executing stack current found ordinary free executing fails
  rw [fails] at raised
  refine ⟨reason, evaluation, heap, grows, place, fun value reference present reaches =>
    grows.old_of_reaches tidy.present.heap reaches present, raised, fun settled => ?_,
    fun repaired again inTime => ?_⟩
  · rw [raise_of_settled stack settled] at raised
    cases raised
    exact ⟨rfl, rfl⟩
  · rcases left with rfl | evaluates
    · exact advance_of_begin again current found inTime
    · exact advance_again current found evaluates place again inTime

end

/-- The second statement of this script makes an array before it fails. It is begun again in the
session that it leaves. -/
theorem failing_assignment_has_no_effect :
    ∃ (session after : Session) (context : Context) (below : List Activation)
      (this : StatementRef) (statement : Statement) (failure : RuntimeError),
      session.Tidy ∧ session.stack = ⟨context, .resting⟩ :: below ∧
      session.step 10 = (.failed failure, after) ∧ session.heap.Extends after.heap ∧
      session.heap.arrays.size < after.heap.arrays.size ∧
      after.advance = ({ after with now := after.now + 1 } : Session).settleStatement
        (context.beginStatement after.heap this statement) below := by
  have passed : ((Script.ofSource "a = [1]\na[5] = [2]\n").toOption.any
      fun script => ((Session.new none).run script).toOption.any fun started =>
        let session := started.turnsFrom 4
        session.isSettled && session.standsWithoutCalls && fails (session.step 10) fun after =>
          decide (session.heap.arrays.size < after.heap.arrays.size) &&
            ({ after with now := after.now + 1 } : Session).isOverdue.isNone) = true := by
    decide +kernel
  obtain ⟨script, started, accepted, begun, passed⟩ := eq_of_runs passed
  have tidy : (started.turnsFrom 4).Tidy :=
    ((Tidy.new none).run (Script.parsed_ofSource accepted) begun).turns 4
  dsimp only at passed
  generalize started.turnsFrom 4 = session at passed tidy
  obtain ⟨settled, passed⟩ := Bool.and_eq_true_iff.mp passed
  obtain ⟨settled, stands⟩ := Bool.and_eq_true_iff.mp settled
  obtain ⟨failure, after, failed, passed⟩ := eq_of_fails passed
  obtain ⟨larger, inTime⟩ := Bool.and_eq_true_iff.mp passed
  obtain ⟨context, below, this, statement, stack, current, found, ordinary, free⟩ :=
    eq_of_standsWithoutCalls stands
  obtain ⟨_, untouched, steps⟩ :=
    failing_statement_has_no_effect stack current found ordinary (fun node _ => free node) tidy
  obtain ⟨turns, executing, fails⟩ := steps 10 failure after settled failed
  obtain ⟨reason, evaluation, heap, grows, _, _, _, place, again⟩ :=
    untouched turns failure after executing fails
  obtain ⟨rfl, rfl⟩ := place settled
  exact ⟨session, _, context, below, this, statement, failure, tidy, stack, failed, grows,
    of_decide_eq_true larger, again _ rfl (Option.isNone_iff_eq_none.mp inTime)⟩

end Session

end ScriptEngine
