import ScriptEngine.Proofs.Value.Present

/-!
# Evaluations and contexts over closed heaps

Over a closed heap an evaluation computes values that are there, and leaves a closed heap.
The values that a context keeps stay there while the heap grows.
-/

set_option autoImplicit false

namespace ScriptEngine

variable {heap : Heap}

/-!
## Evaluations
-/

/-- The scope of a node, the receiver of a call or the value that a context ended with is
there if there is one. -/
def ScopePresent (heap : Heap) (scope : Option Value) : Prop :=
  ∀ value ∈ scope, value.Present heap

theorem ScopePresent.none : ScopePresent heap none :=
  fun _ member => nomatch member

theorem ScopePresent.some {value : Value} (present : value.Present heap) :
    ScopePresent heap (some value) := by
  rintro _ ⟨⟩
  exact present

theorem ScopePresent.mono {scope : Option Value} (present : ScopePresent heap scope)
    {grown : Heap} (size : heap.arrays.size ≤ grown.arrays.size) : ScopePresent grown scope :=
  fun value member => (present value member).mono size

structure ScopedResult.Present (heap : Heap) (result : ScopedResult) : Prop where
  value : result.value.Present heap
  scope : ScopePresent heap result.scope

/-- The heap has all arrays that the evaluation holds. -/
structure Evaluation.Present (heap : Heap) (evaluation : Evaluation) : Prop where
  script : evaluation.script.Plain
  pending : ∀ waiting ∈ evaluation.pending, ScopePresent heap waiting.scope
  results : ∀ result ∈ evaluation.results, result.Present heap

structure CallRequest.Present (heap : Heap) (request : CallRequest) : Prop where
  arguments : ∀ argument ∈ request.arguments, argument.Present heap
  receiver : ScopePresent heap request.receiver

def NodeOutcome.Present (heap : Heap) : NodeOutcome → Prop
  | .value result => result.Present heap
  | .call request => request.Present heap
  | .delegated => True
  | .failed _ => True
  | .endless => True

def Evaluation.Turn.Present (heap : Heap) : Evaluation.Turn → Prop
  | .working => True
  | .call request scope => request.Present heap ∧ ScopePresent heap scope
  | .finished value => value.Present heap
  | .failed _ => True
  | .endless => True

namespace Evaluation

theorem present_scheduleWithin {script : Script} (depth : Nat) {node : ExpressionRef}
    {scope : Option Value} {pending : List PendingNode} (scopePresent : ScopePresent heap scope)
    (pendingPresent : ∀ waiting ∈ pending, ScopePresent heap waiting.scope) :
    ∀ waiting ∈ scheduleWithin script depth node scope pending,
      ScopePresent heap waiting.scope := by
  induction depth generalizing node scope pending with
  | zero => exact List.forall_mem_cons.mpr ⟨scopePresent, pendingPresent⟩
  | succ depth ih =>
      simp only [scheduleWithin]
      generalize (script.expression? node).elim [] Expression.operands = operands
      induction operands with
      | nil => exact List.forall_mem_cons.mpr ⟨scopePresent, pendingPresent⟩
      | cons operand rest restIH =>
          rw [List.foldr_cons]
          exact ih .none restIH

theorem present_duplicateAll (closed : heap.Closed) {values : List Value}
    (present : ∀ value ∈ values, value.Present heap) :
    heap.Grows (duplicateAll heap values).2 ∧
      ∀ copy ∈ (duplicateAll heap values).1, copy.Present (duplicateAll heap values).2 := by
  induction values generalizing heap with
  | nil => exact ⟨closed.refl, List.forall_mem_nil _⟩
  | cons value rest ih =>
      obtain ⟨first, others⟩ := List.forall_mem_cons.mp present
      obtain ⟨grown, copied⟩ := closed.duplicate first
      obtain ⟨more, copies⟩ := ih grown.closed fun other member =>
        (others other member).mono grown.size
      exact ⟨grown.trans more, List.forall_mem_cons.mpr ⟨copied.mono more.size, copies⟩⟩

namespace Present

variable {evaluation : Evaluation} (present : evaluation.Present heap)

include present

theorem mono {grown : Heap} (size : heap.arrays.size ≤ grown.arrays.size) :
    evaluation.Present grown where
  script := present.script
  pending waiting member := (present.pending waiting member).mono size
  results result member :=
    ⟨(present.results result member).value.mono size, (present.results result member).scope.mono size⟩

theorem reset : evaluation.reset.Present heap :=
  ⟨present.script, List.forall_mem_nil _, List.forall_mem_nil _⟩

theorem schedule (node : ExpressionRef) {scope : Option Value}
    (scopePresent : ScopePresent heap scope) : (evaluation.schedule node scope).Present heap :=
  ⟨present.script, present_scheduleWithin _ scopePresent present.pending, present.results⟩

theorem begin (node : ExpressionRef) : (evaluation.begin node).Present heap :=
  present.reset.schedule node .none

theorem pushResult {value : Value} {scope : Option Value} (valuePresent : value.Present heap)
    (scopePresent : ScopePresent heap scope) : (evaluation.pushResult value scope).Present heap :=
  ⟨present.script, present.pending,
    List.forall_mem_cons.mpr ⟨⟨valuePresent, scopePresent⟩, present.results⟩⟩

omit present in
theorem lookup (closed : heap.Closed) {name : String} {value : Value}
    (found : evaluation.lookup heap name = .ok value) : value.Present heap := by
  unfold Evaluation.lookup at found
  split at found
  · split at found
    · next inside =>
        cases found
        exact closed.lookup inside
    · cases found
  · split at found
    · next inside =>
        cases found
        obtain ⟨_, _, held⟩ := List.exists_of_findSome?_eq_some inside
        exact closed.lookup held
    · cases found

/-- What evaluating a node comes to is there, in the heap that it leaves. -/
theorem apply (closed : heap.Closed) {node : Expression} (plain : node.Plain)
    {operands : List ScopedResult} (operandsPresent : ∀ operand ∈ operands, operand.Present heap) :
    heap.Grows (evaluation.apply heap node operands).2.2 ∧
      (evaluation.apply heap node operands).1.Present (evaluation.apply heap node operands).2.2 ∧
      (evaluation.apply heap node operands).2.1.Present
        (evaluation.apply heap node operands).2.2 := by
  have same {outcome : NodeOutcome} (outcomePresent : outcome.Present heap) :
      heap.Grows heap ∧ outcome.Present heap ∧ evaluation.Present heap :=
    ⟨closed.refl, outcomePresent, present⟩
  have made {items : Array Value} {grown : Heap} (grows : heap.Grows grown)
      (itemsPresent : ∀ item ∈ items, item.Present grown) :
      heap.Grows (grown.newArray items).2 ∧
        (NodeOutcome.value (.array (grown.newArray items).1)).Present (grown.newArray items).2 ∧
        evaluation.Present (grown.newArray items).2 := by
    obtain ⟨more, array⟩ := grows.closed.newArray itemsPresent
    exact ⟨grows.trans more, array, present.mono (grows.trans more).size⟩
  unfold Evaluation.apply
  split
  · exact same plain.present
  · dsimp only
    split
    · next found => exact same (lookup closed found)
    · exact same trivial
  · dsimp only
    split
    · next applied => exact same (Heap.plain_applyUnary applied).present
    · exact same trivial
  · split
    · next applied =>
        obtain ⟨grows, value⟩ := closed.applyBinary applied
        exact ⟨grows, value, present.mono grows.size⟩
    · exact same trivial
    · exact same trivial
  · next operator _ right _ left =>
      have decided := (operandsPresent left (List.mem_singleton_self left)).value
      have delegated := present.schedule right .none
      cases operator <;> dsimp only <;> split <;>
        first | exact same decided | exact ⟨closed.refl, trivial, delegated⟩
  · next member _ object =>
      dsimp only
      split
      · exact ⟨closed.refl, trivial, present.schedule member
          (.some (operandsPresent object (List.mem_singleton_self object)).value)⟩
      · exact same trivial
  · dsimp only
    split
    · next found => exact same (closed.element found)
    · exact same trivial
  · have values : ∀ value ∈ operands.map ScopedResult.value, value.Present heap := by
      intro value member
      obtain ⟨operand, inside, rfl⟩ := List.mem_map.mp member
      exact (operandsPresent operand inside).value
    obtain ⟨grows, copies⟩ := present_duplicateAll closed values
    exact made grows fun item member => copies item (by simpa using member)
  · next callee arguments =>
      obtain ⟨calleePresent, argumentsPresent⟩ := List.forall_mem_cons.mp operandsPresent
      dsimp only
      split
      · refine @same (.call _) ⟨fun argument member => ?_, calleePresent.scope⟩
        obtain ⟨result, inside, rfl⟩ := List.mem_map.mp member
        exact (argumentsPresent result inside).value
      · exact same trivial
  · split
    · refine made closed.refl fun item member => ?_
      obtain ⟨name, _, rfl⟩ := List.mem_map.mp (List.mem_toArray.mp member)
      trivial
    · exact same trivial
  · exact same trivial

theorem evaluateNode (closed : heap.Closed) {node : Expression} (plain : node.Plain) :
    heap.Grows (evaluation.evaluateNode heap node).2.2 ∧
      (evaluation.evaluateNode heap node).1.Present (evaluation.evaluateNode heap node).2.2 ∧
      (evaluation.evaluateNode heap node).2.1.Present
        (evaluation.evaluateNode heap node).2.2 := by
  unfold Evaluation.evaluateNode popResults
  split
  · next operands taken found =>
      split at found
      · cases found
        have rest : Evaluation.Present heap
            { evaluation with results := evaluation.results.drop node.operands.length } :=
          ⟨present.script, present.pending, fun result member =>
            present.results result (List.mem_of_mem_drop member)⟩
        exact rest.apply closed plain fun operand member =>
          present.results operand (List.mem_of_mem_take (List.mem_reverse.mp member))
      · cases found
  · next left found =>
      split at found
      · cases found
      · cases found
        exact ⟨closed.refl, trivial, present.script, present.pending, List.forall_mem_nil _⟩

theorem advance (closed : heap.Closed) :
    heap.Grows (evaluation.advance heap).2.2 ∧
      (evaluation.advance heap).1.Present (evaluation.advance heap).2.2 ∧
      (evaluation.advance heap).2.1.Present (evaluation.advance heap).2.2 := by
  unfold Evaluation.advance
  split
  · dsimp only
    have rested : Evaluation.Present heap { evaluation with names := none, current := none } :=
      ⟨present.script, present.pending, present.results⟩
    split
    · next result same =>
        have last := present.results result (by rw [same]; exact List.mem_singleton_self result)
        exact ⟨closed.refl, last.value, present.script, present.pending, List.forall_mem_nil _⟩
    · exact ⟨closed.refl, trivial, rested.reset⟩
  · next node scope pending waiting =>
      obtain ⟨scopePresent, pendingPresent⟩ := List.forall_mem_cons.mp (waiting ▸ present.pending)
      have begun : Evaluation.Present heap
          { evaluation with
            pending, names := scope.bind Value.recordRef?, current := some node } :=
        ⟨present.script, pendingPresent, present.results⟩
      dsimp only
      split
      · exact ⟨closed.refl, trivial, begun⟩
      · next expression found =>
          have evaluated := begun.evaluateNode closed
            (present.script expression (Array.mem_of_getElem? found))
          generalize Evaluation.evaluateNode _ heap expression = answer at evaluated ⊢
          obtain ⟨outcome, after, grown⟩ := answer
          obtain ⟨grows, outcomePresent, afterPresent⟩ := evaluated
          cases outcome with
          | value value =>
              exact ⟨grows, trivial,
                afterPresent.pushResult outcomePresent (scopePresent.mono grows.size)⟩
          | delegated | failed | endless => exact ⟨grows, trivial, afterPresent⟩
          | call request =>
              exact ⟨grows, ⟨outcomePresent, scopePresent.mono grows.size⟩, afterPresent⟩

end Present

end Evaluation

/-!
## Contexts
-/

/-- The heap has the arrays that the cursors of the frames go through. -/
def Frame.AllPresent (heap : Heap) (frames : List Frame) : Prop :=
  ∀ frame ∈ frames, ∀ iteration ∈ frame.iteration, iteration.source.Present heap

/-- The heap has all arrays that the context holds. -/
structure Context.Present (heap : Heap) (context : Context) : Prop where
  evaluation : context.evaluation.Present heap
  frames : Frame.AllPresent heap context.frames
  returned : ScopePresent heap context.returnValue

namespace Context.Present

variable {context : Context} (present : context.Present heap)

include present

theorem mono {grown : Heap} (size : heap.arrays.size ≤ grown.arrays.size) :
    context.Present grown :=
  ⟨present.evaluation.mono size,
    fun frame member iteration held => (present.frames frame member iteration held).mono size,
    present.returned.mono size⟩

theorem leave {frames : List Frame} (suffix : frames <:+ context.frames) :
    Context.Present heap { context with frames } :=
  ⟨present.evaluation, fun frame member => present.frames frame (suffix.mem member),
    present.returned⟩

theorem setIteration (iteration : Option Iteration)
    (iterationPresent : ∀ cursor ∈ iteration, cursor.source.Present heap) :
    (context.setIteration iteration).Present heap := by
  unfold Context.setIteration modifyFrame
  split
  · exact present
  · next frame rest same =>
      obtain ⟨_, others⟩ := List.forall_mem_cons.mp (same ▸ present.frames)
      exact ⟨present.evaluation, List.forall_mem_cons.mpr ⟨iterationPresent, others⟩,
        present.returned⟩

theorem resumeAt (statement : Option StatementRef) :
    (context.resumeAt statement).Present heap := by
  unfold Context.resumeAt
  split
  · exact present
  · next frame rest same =>
      obtain ⟨first, others⟩ := List.forall_mem_cons.mp (same ▸ present.frames)
      exact ⟨present.evaluation.reset, List.forall_mem_cons.mpr ⟨first, others⟩, present.returned⟩

theorem proceed : context.proceed.Present heap :=
  (present.leave (Frame.leaveFinished_suffix _ _)).resumeAt _

theorem enter (statement fallback continueTarget breakTarget : Option StatementRef) :
    (context.enter statement fallback continueTarget breakTarget).Present heap := by
  have opened : Context.Present heap
      { context with
        frames := ⟨statement, fallback, continueTarget, breakTarget, none⟩ :: context.frames
        evaluation := context.evaluation.reset } :=
    ⟨present.evaluation.reset,
      List.forall_mem_cons.mpr ⟨fun _ none => (nomatch none), present.frames⟩, present.returned⟩
  unfold Context.enter
  split
  · exact opened.proceed
  · exact opened

theorem nextLoopPass : context.nextLoopPass.2.Present heap := by
  unfold Context.nextLoopPass
  split
  · next found => exact (present.leave (Frame.findContinue_suffix found)).resumeAt _
  · exact present.leave (List.nil_suffix)

theorem breakOut (count : Nat) : (context.breakOut count).2.Present heap := by
  have left := present.leave (Frame.leaveBreakable_suffix none count _)
  unfold Context.breakOut
  split
  · exact present
  · dsimp only
    split
    · exact left
    · split
      · exact ((left.resumeAt _).setIteration none fun _ member => nomatch member).proceed
      · exact left

theorem reset : context.reset.Present heap :=
  ⟨present.evaluation.reset, List.forall_mem_nil _, present.returned⟩

theorem returnWith {value : Value} (valuePresent : value.Present heap) :
    (context.returnWith value).Present heap :=
  ⟨present.evaluation.reset, List.forall_mem_nil _, .some valuePresent⟩

theorem iteration {iteration : Iteration} (found : context.iteration = some iteration) :
    iteration.source.Present heap := by
  unfold Context.iteration at found
  obtain ⟨frame, top, found⟩ := Option.bind_eq_some_iff.mp found
  exact present.frames frame (List.mem_of_head? top) iteration found

omit present in
/-- A new context holds no values. -/
theorem new {kind : ContextKind} {script : Script} {chain : ScopeChain} {ownsNames : Bool}
    (plain : script.Plain) : (Context.new kind script chain ownsNames).Present heap :=
  ⟨⟨plain, List.forall_mem_nil _, List.forall_mem_nil _⟩, List.forall_mem_nil _, .none⟩

end Context.Present

end ScriptEngine
