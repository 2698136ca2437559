import ScriptEngine.Proofs.Control.Scope
import ScriptEngine.Proofs.Value.Among

/-!
# Which records evaluations and contexts refer to

Over a heap whose records are all among given ones, an evaluation and the statements of a
context find no others: the values that they compute, hand on and keep are records only
if these are among the given ones.
-/

set_option autoImplicit false

namespace ScriptEngine

variable {records : RecordRef → Prop}

/-!
## Evaluations
-/

/-- The scope of a node, the receiver of a call or the value that a context ended with is
among the records if there is one. -/
def ScopeAmong (records : RecordRef → Prop) (scope : Option Value) : Prop :=
  ∀ value ∈ scope, value.Among records

theorem ScopeAmong.none : ScopeAmong records none :=
  fun _ member => nomatch member

theorem ScopeAmong.some {value : Value} (among : value.Among records) :
    ScopeAmong records (some value) := by
  rintro _ ⟨⟩
  exact among

/-- A result, and the scope in which its node was evaluated, are among the records. -/
structure ScopedResult.Among (records : RecordRef → Prop) (result : ScopedResult) : Prop where
  value : result.value.Among records
  scope : ScopeAmong records result.scope

/-- All values that the evaluation holds are among the records. -/
structure Evaluation.Among (records : RecordRef → Prop) (evaluation : Evaluation) : Prop where
  script : evaluation.script.Plain
  pending : ∀ waiting ∈ evaluation.pending, ScopeAmong records waiting.scope
  results : ∀ result ∈ evaluation.results, result.Among records

structure CallRequest.Among (records : RecordRef → Prop) (request : CallRequest) : Prop where
  arguments : ∀ argument ∈ request.arguments, argument.Among records
  receiver : ScopeAmong records request.receiver

def NodeOutcome.Among (records : RecordRef → Prop) : NodeOutcome → Prop
  | .value result => result.Among records
  | .call request => request.Among records
  | .delegated => True
  | .failed _ => True
  | .endless => True

def Evaluation.Turn.Among (records : RecordRef → Prop) : Evaluation.Turn → Prop
  | .working => True
  | .call request scope => request.Among records ∧ ScopeAmong records scope
  | .finished value => value.Among records
  | .failed _ => True
  | .endless => True

namespace Evaluation

theorem among_scheduleWithin {script : Script} (depth : Nat) {node : ExpressionRef}
    {scope : Option Value} {pending : List PendingNode}
    (scopeAmong : ScopeAmong records scope)
    (pendingAmong : ∀ waiting ∈ pending, ScopeAmong records waiting.scope) :
    ∀ waiting ∈ scheduleWithin script depth node scope pending,
      ScopeAmong records waiting.scope := by
  induction depth generalizing node scope pending with
  | zero => exact List.forall_mem_cons.mpr ⟨scopeAmong, pendingAmong⟩
  | succ depth ih =>
      simp only [scheduleWithin]
      generalize (script.expression? node).elim [] Expression.operands = operands
      induction operands with
      | nil => exact List.forall_mem_cons.mpr ⟨scopeAmong, pendingAmong⟩
      | cons operand rest restIH =>
          rw [List.foldr_cons]
          exact ih .none restIH

theorem among_duplicateAll {heap : Heap} (among : heap.Among records) {values : List Value}
    (valuesAmong : ∀ value ∈ values, value.Among records) :
    (∀ copy ∈ (duplicateAll heap values).1, copy.Among records) ∧
      (duplicateAll heap values).2.Among records := by
  induction values generalizing heap with
  | nil => exact ⟨List.forall_mem_nil _, among⟩
  | cons value rest ih =>
      obtain ⟨first, others⟩ := List.forall_mem_cons.mp valuesAmong
      obtain ⟨copied, grown⟩ := among.duplicate first
      obtain ⟨copies, last⟩ := ih grown others
      exact ⟨List.forall_mem_cons.mpr ⟨copied, copies⟩, last⟩

namespace Among

variable {evaluation : Evaluation} (among : evaluation.Among records)

include among

theorem reset : evaluation.reset.Among records :=
  ⟨among.script, List.forall_mem_nil _, List.forall_mem_nil _⟩

theorem schedule (node : ExpressionRef) {scope : Option Value}
    (scopeAmong : ScopeAmong records scope) :
    (evaluation.schedule node scope).Among records :=
  ⟨among.script, among_scheduleWithin _ scopeAmong among.pending, among.results⟩

theorem begin (node : ExpressionRef) : (evaluation.begin node).Among records :=
  among.reset.schedule node .none

theorem pushResult {value : Value} {scope : Option Value} (valueAmong : value.Among records)
    (scopeAmong : ScopeAmong records scope) :
    (evaluation.pushResult value scope).Among records :=
  ⟨among.script, among.pending, List.forall_mem_cons.mpr ⟨⟨valueAmong, scopeAmong⟩, among.results⟩⟩

omit among in
theorem lookup {heap : Heap} (heapAmong : heap.Among records) {name : String} {value : Value}
    (found : evaluation.lookup heap name = .ok value) : value.Among records := by
  unfold Evaluation.lookup at found
  split at found
  · split at found
    · next inside =>
        cases found
        exact heapAmong.lookup inside
    · cases found
  · split at found
    · next inside =>
        cases found
        exact heapAmong.lookupChain inside
    · cases found

/-- What evaluating a node comes to is among the records again. -/
theorem apply {heap : Heap} (heapAmong : heap.Among records) {node : Expression}
    (plain : node.Plain) {operands : List ScopedResult}
    (operandsAmong : ∀ operand ∈ operands, operand.Among records) :
    (evaluation.apply heap node operands).1.Among records ∧
      (evaluation.apply heap node operands).2.1.Among records ∧
      (evaluation.apply heap node operands).2.2.Among records := by
  unfold Evaluation.apply
  split
  · exact ⟨plain.among, among, heapAmong⟩
  · dsimp only
    split
    · next found => exact ⟨lookup heapAmong found, among, heapAmong⟩
    · exact ⟨trivial, among, heapAmong⟩
  · dsimp only
    split
    · next applied => exact ⟨(Heap.plain_applyUnary applied).among, among, heapAmong⟩
    · exact ⟨trivial, among, heapAmong⟩
  · split
    · next applied =>
        obtain ⟨value, grown⟩ := heapAmong.applyBinary applied
        exact ⟨value, among, grown⟩
    · exact ⟨trivial, among, heapAmong⟩
    · exact ⟨trivial, among, heapAmong⟩
  · next operator _ right _ left =>
      dsimp only
      have decided := (operandsAmong left (List.mem_singleton_self left)).value
      have delegated := among.schedule right .none
      cases operator <;> dsimp only <;> split <;>
        first | exact ⟨decided, among, heapAmong⟩ | exact ⟨trivial, delegated, heapAmong⟩
  · next member _ object =>
      dsimp only
      split
      · exact ⟨trivial, among.schedule member
          (.some (operandsAmong object (List.mem_singleton_self object)).value), heapAmong⟩
      · exact ⟨trivial, among, heapAmong⟩
  · dsimp only
    split
    · next found => exact ⟨heapAmong.element found, among, heapAmong⟩
    · exact ⟨trivial, among, heapAmong⟩
  · have values : ∀ value ∈ operands.map ScopedResult.value, value.Among records := by
      intro value member
      obtain ⟨operand, inside, rfl⟩ := List.mem_map.mp member
      exact (operandsAmong operand inside).value
    obtain ⟨copies, grown⟩ := among_duplicateAll heapAmong values
    exact ⟨trivial, among, grown.newArray fun item member => copies item (by simpa using member)⟩
  · next callee arguments =>
      obtain ⟨calleeAmong, argumentsAmong⟩ := List.forall_mem_cons.mp operandsAmong
      dsimp only
      split
      · refine ⟨⟨fun argument member => ?_, calleeAmong.scope⟩, among, heapAmong⟩
        obtain ⟨result, inside, rfl⟩ := List.mem_map.mp member
        exact (argumentsAmong result inside).value
      · exact ⟨trivial, among, heapAmong⟩
  · split
    · refine ⟨trivial, among, heapAmong.newArray fun item member => ?_⟩
      obtain ⟨name, _, rfl⟩ := List.mem_map.mp (List.mem_toArray.mp member)
      trivial
    · exact ⟨trivial, among, heapAmong⟩
  · exact ⟨trivial, among, heapAmong⟩

theorem evaluateNode {heap : Heap} (heapAmong : heap.Among records) {node : Expression}
    (plain : node.Plain) :
    (evaluation.evaluateNode heap node).1.Among records ∧
      (evaluation.evaluateNode heap node).2.1.Among records ∧
      (evaluation.evaluateNode heap node).2.2.Among records := by
  unfold Evaluation.evaluateNode popResults
  split
  · next operands taken found =>
      split at found
      · cases found
        have rest : Evaluation.Among records
            { evaluation with results := evaluation.results.drop node.operands.length } :=
          ⟨among.script, among.pending, fun result member =>
            among.results result (List.mem_of_mem_drop member)⟩
        exact rest.apply heapAmong plain fun operand member =>
          among.results operand (List.mem_of_mem_take (List.mem_reverse.mp member))
      · cases found
  · next left found =>
      split at found
      · cases found
      · cases found
        exact ⟨trivial, ⟨among.script, among.pending, List.forall_mem_nil _⟩, heapAmong⟩

theorem advance {heap : Heap} (heapAmong : heap.Among records) :
    (evaluation.advance heap).1.Among records ∧ (evaluation.advance heap).2.1.Among records ∧
      (evaluation.advance heap).2.2.Among records := by
  unfold Evaluation.advance
  split
  · dsimp only
    have rested : Evaluation.Among records { evaluation with names := none, current := none } :=
      ⟨among.script, among.pending, among.results⟩
    split
    · next result same =>
        have last := among.results result (by rw [same]; exact List.mem_singleton_self result)
        exact ⟨last.value, ⟨among.script, among.pending, List.forall_mem_nil _⟩, heapAmong⟩
    · exact ⟨trivial, rested.reset, heapAmong⟩
  · next node scope pending waiting =>
      obtain ⟨scopeAmong, pendingAmong⟩ := List.forall_mem_cons.mp (waiting ▸ among.pending)
      have begun : Evaluation.Among records
          { evaluation with
            pending, names := scope.bind Value.recordRef?, current := some node } :=
        ⟨among.script, pendingAmong, among.results⟩
      dsimp only
      split
      · exact ⟨trivial, begun, heapAmong⟩
      · next expression found =>
          have evaluated := begun.evaluateNode heapAmong
            (among.script expression (Array.mem_of_getElem? found))
          generalize Evaluation.evaluateNode _ heap expression = answer at evaluated ⊢
          obtain ⟨outcome, after, grown⟩ := answer
          obtain ⟨outcomeAmong, afterAmong, grownAmong⟩ := evaluated
          cases outcome with
          | value value =>
              exact ⟨trivial, afterAmong.pushResult outcomeAmong scopeAmong, grownAmong⟩
          | delegated | failed | endless => exact ⟨trivial, afterAmong, grownAmong⟩
          | call request => exact ⟨⟨outcomeAmong, scopeAmong⟩, afterAmong, grownAmong⟩

end Among

end Evaluation

/-!
## Contexts
-/

/-- The cursors of the frames are over values among the records. -/
def Frame.AllAmong (records : RecordRef → Prop) (frames : List Frame) : Prop :=
  ∀ frame ∈ frames, ∀ iteration ∈ frame.iteration, iteration.source.Among records

/-- All values that the context holds are among the records. -/
structure Context.Among (records : RecordRef → Prop) (context : Context) : Prop where
  evaluation : context.evaluation.Among records
  frames : Frame.AllAmong records context.frames
  returned : ScopeAmong records context.returnValue

namespace Frame

theorem leaveFinished_suffix (next : Option StatementRef) (frames : List Frame) :
    (leaveFinished next frames).2 <:+ frames := by
  induction frames generalizing next with
  | nil => cases next <;> exact List.suffix_rfl
  | cons frame rest ih =>
      cases next with
      | some _ => exact List.suffix_rfl
      | none => exact (ih frame.fallback).trans (List.suffix_cons frame rest)

theorem findContinue_suffix {frames rest : List Frame} {target : StatementRef}
    (found : findContinue frames = some (target, rest)) : rest <:+ frames := by
  induction frames with
  | nil => cases found
  | cons frame others ih =>
      unfold findContinue at found
      split at found
      · cases found
        exact List.suffix_cons _ _
      · exact (ih found).trans (List.suffix_cons _ _)

theorem leaveBreakable_suffix (target : Option StatementRef) (count : Nat)
    (frames : List Frame) : (leaveBreakable target count frames).2.2 <:+ frames := by
  induction frames generalizing target count with
  | nil => cases count <;> exact List.suffix_rfl
  | cons frame rest ih =>
      cases count with
      | zero => exact List.suffix_rfl
      | succ count =>
          unfold leaveBreakable
          split
          · exact (ih _ _).trans (List.suffix_cons frame rest)
          · exact (ih _ _).trans (List.suffix_cons frame rest)

theorem AllAmong.suffix {before after : List Frame} (among : AllAmong records before)
    (suffix : after <:+ before) : AllAmong records after :=
  fun frame member => among frame (suffix.mem member)

end Frame

namespace Context.Among

variable {context : Context} (among : context.Among records)

include among

theorem leave {frames : List Frame} (left : Frame.AllAmong records frames) :
    Context.Among records { context with frames } :=
  ⟨among.evaluation, left, among.returned⟩

theorem modifyFrame {change : Frame → Frame}
    (changed : ∀ frame : Frame, (∀ iteration ∈ frame.iteration, iteration.source.Among records) →
      ∀ iteration ∈ (change frame).iteration, iteration.source.Among records) :
    (context.modifyFrame change).Among records := by
  unfold Context.modifyFrame
  split
  · exact among
  · next frame rest same =>
      obtain ⟨first, others⟩ := List.forall_mem_cons.mp (same ▸ among.frames)
      exact among.leave (List.forall_mem_cons.mpr ⟨changed frame first, others⟩)

theorem setIteration (iteration : Option Iteration)
    (iterationAmong : ∀ cursor ∈ iteration, cursor.source.Among records) :
    (context.setIteration iteration).Among records :=
  among.modifyFrame fun _ _ => iterationAmong

theorem resumeAt (statement : Option StatementRef) :
    (context.resumeAt statement).Among records := by
  unfold Context.resumeAt
  split
  · exact among
  · next frame rest same =>
      obtain ⟨first, others⟩ := List.forall_mem_cons.mp (same ▸ among.frames)
      exact ⟨among.evaluation.reset, List.forall_mem_cons.mpr ⟨first, others⟩, among.returned⟩

theorem proceed : context.proceed.Among records :=
  (among.leave (among.frames.suffix (Frame.leaveFinished_suffix _ _))).resumeAt _

theorem enter (statement fallback continueTarget breakTarget : Option StatementRef) :
    (context.enter statement fallback continueTarget breakTarget).Among records := by
  have opened : Context.Among records
      { context with
        frames := ⟨statement, fallback, continueTarget, breakTarget, none⟩ :: context.frames
        evaluation := context.evaluation.reset } :=
    ⟨among.evaluation.reset,
      List.forall_mem_cons.mpr ⟨fun _ none => (nomatch none), among.frames⟩, among.returned⟩
  unfold Context.enter
  split
  · exact opened.proceed
  · exact opened

theorem nextLoopPass : context.nextLoopPass.2.Among records := by
  unfold Context.nextLoopPass
  split
  · next found =>
      exact (among.leave (among.frames.suffix (Frame.findContinue_suffix found))).resumeAt _
  · exact among.leave (List.forall_mem_nil _)

theorem breakOut (count : Nat) : (context.breakOut count).2.Among records := by
  have left := among.leave (among.frames.suffix (Frame.leaveBreakable_suffix none count _))
  unfold Context.breakOut
  split
  · exact among
  · dsimp only
    split
    · exact left
    · split
      · exact ((left.resumeAt _).setIteration none fun _ member => nomatch member).proceed
      · exact left

theorem reset : context.reset.Among records :=
  ⟨among.evaluation.reset, List.forall_mem_nil _, among.returned⟩

theorem returnWith {value : Value} (valueAmong : value.Among records) :
    (context.returnWith value).Among records := by
  exact ⟨among.evaluation.reset, List.forall_mem_nil _, .some valueAmong⟩

theorem begin (expression : ExpressionRef) :
    Context.Among records { context with evaluation := context.evaluation.begin expression } :=
  ⟨among.evaluation.begin expression, among.frames, among.returned⟩

theorem iteration (iteration : Iteration) (found : context.iteration = some iteration) :
    iteration.source.Among records := by
  unfold Context.iteration at found
  obtain ⟨frame, top, found⟩ := Option.bind_eq_some_iff.mp found
  exact among.frames frame (List.mem_of_head? top) iteration found

omit among in
/-- A new context holds no values. -/
theorem new {kind : ContextKind} {script : Script} {chain : ScopeChain} {ownsNames : Bool}
    (plain : script.Plain) : (Context.new kind script chain ownsNames).Among records :=
  ⟨⟨plain, List.forall_mem_nil _, List.forall_mem_nil _⟩, List.forall_mem_nil _,
    .none⟩

end Context.Among

end ScriptEngine
