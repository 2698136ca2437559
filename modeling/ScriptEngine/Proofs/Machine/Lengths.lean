import ScriptEngine.Proofs.Machine.Opened

/-!
# Arrays keep their lengths

Evaluating an expression leaves all arrays that are there as they are and perhaps makes new
ones behind them. A statement can write items besides, but no operation of the language or of
the library adds items to an array or takes any away (`Session.advance_keepsLengths`).
-/

set_option autoImplicit false

namespace ScriptEngine

/-!
## Heaps
-/

namespace Heap

/-- The arrays that were there are the same as before, and there may be more. -/
def Appends (before after : Heap) : Prop :=
  before.arrays.toList <+: after.arrays.toList

/-- The arrays that were there are as long as before, and there may be more. -/
structure KeepsLengths (before after : Heap) : Prop where
  size : before.arrays.size ≤ after.arrays.size
  lengths : ∀ reference, reference.address < before.arrays.size →
    (after.array reference).size = (before.array reference).size

namespace Appends

theorem refl (heap : Heap) : heap.Appends heap := List.prefix_rfl

theorem trans {first second third : Heap} (early : first.Appends second)
    (late : second.Appends third) : first.Appends third :=
  List.IsPrefix.trans early late

theorem of_arrays {before after : Heap} (same : after.arrays = before.arrays) :
    before.Appends after := by
  unfold Appends
  rw [same]

variable {before after : Heap} (appends : before.Appends after)

include appends

theorem size : before.arrays.size ≤ after.arrays.size :=
  List.IsPrefix.length_le appends

theorem array {reference : ArrayRef} (present : reference.address < before.arrays.size) :
    after.array reference = before.array reference := by
  have same : after.arrays[reference.address]? = before.arrays[reference.address]? := by
    obtain ⟨more, extended⟩ := appends
    rw [← Array.getElem?_toList, ← Array.getElem?_toList, ← extended]
    exact List.getElem?_append_left present
  simp only [Heap.array, same]

theorem keepsLengths : before.KeepsLengths after where
  size := appends.size
  lengths _ present := congrArg Array.size (appends.array present)

end Appends

namespace KeepsLengths

theorem of_arrays {before after : Heap} (same : after.arrays = before.arrays) :
    before.KeepsLengths after :=
  (Appends.of_arrays same).keepsLengths

theorem trans {first second third : Heap} (early : first.KeepsLengths second)
    (late : second.KeepsLengths third) : first.KeepsLengths third where
  size := Nat.le_trans early.size late.size
  lengths reference present :=
    (late.lengths reference (Nat.lt_of_lt_of_le present early.size)).trans
      (early.lengths reference present)

theorem setItem (heap : Heap) (reference : ArrayRef) (position : Nat) (value : Value) :
    heap.KeepsLengths (heap.setItem reference position value) where
  size := by simp [Heap.setItem]
  lengths read _ := by
    rw [heap.array_setItem]
    split
    · exact Array.size_setIfInBounds
    · rfl

end KeepsLengths

theorem appends_newArray (heap : Heap) (items : Array Value) :
    heap.Appends (heap.newArray items).2 := by
  simp [Appends, newArray]

theorem appends_duplicate (heap : Heap) (value : Value) :
    heap.Appends (heap.duplicate value).2 := by
  cases value with
  | array reference => exact heap.appends_newArray _
  | none | number | text | bool | record | function => exact .refl heap

theorem appends_add {heap after : Heap} {left right sum : Value}
    (added : heap.add left right = .ok (sum, after)) : heap.Appends after := by
  unfold add at added
  split at added
  · cases added
    exact .refl heap
  · cases added
    exact .refl heap
  · cases added
    exact heap.appends_newArray _
  · cases added

theorem appends_applyBinary {heap after : Heap} {operator : BinaryOperator}
    {left right value : Value}
    (applied : heap.applyBinary operator left right = some (.ok (value, after))) :
    heap.Appends after := by
  rcases applyBinary_ok applied with added | ⟨rfl, _⟩
  · exact appends_add added
  · exact .refl after

theorem keepsLengths_setElement {heap grown : Heap} {object index value : Value}
    (written : heap.setElement object index value = .ok grown) : heap.KeepsLengths grown := by
  unfold setElement at written
  split at written
  · split at written <;> cases written
    exact .setItem heap _ _ _
  · cases written
    exact .of_arrays rfl
  · cases written

theorem appends_bindParameters (heap : Heap) (locals : RecordRef) (parameters : List String)
    (arguments : List Value) : heap.Appends (heap.bindParameters locals parameters arguments) := by
  induction parameters generalizing heap arguments with
  | nil => exact .refl heap
  | cons parameter parameters ih =>
      cases arguments with
      | nil => exact .refl heap
      | cons argument arguments =>
          have copied := heap.appends_duplicate argument
          exact copied.trans (ih ((heap.duplicate argument).2.setMember locals parameter _) _)

end Heap

theorem AssignOperator.appends_combine {operator : AssignOperator} {heap grown : Heap}
    {current : Unit → Except RuntimeCause Value} {value stored : Value}
    (combined : operator.combine heap current value = .ok (stored, grown)) :
    heap.Appends grown := by
  cases operator with
  | set =>
      have copied := heap.appends_duplicate value
      rw [Except.ok.inj combined] at copied
      exact copied
  | add =>
      simp only [combine] at combined
      split at combined
      · exact Heap.appends_add combined
      · cases combined
  | subtract =>
      simp only [combine] at combined
      split at combined
      · next held _ =>
          generalize held.subtract value = difference at combined
          cases difference <;> cases combined
          exact .refl heap
      · cases combined

theorem Context.arrays_release (context : Context) (heap : Heap) :
    (context.release heap).arrays = heap.arrays := by
  unfold release
  split <;> rfl

/-!
## Evaluations
-/

namespace Evaluation

theorem appends_duplicateAll (heap : Heap) (values : List Value) :
    heap.Appends (duplicateAll heap values).2 := by
  induction values generalizing heap with
  | nil => exact .refl heap
  | cons value rest ih => exact (heap.appends_duplicate value).trans (ih _)

theorem appends_apply (evaluation : Evaluation) (heap : Heap) (node : Expression)
    (operands : List ScopedResult) :
    heap.Appends (evaluation.apply heap node operands).2.2 := by
  have unchanged : heap.Appends heap := .refl heap
  unfold apply
  split
  · exact unchanged
  · dsimp only
    split <;> exact unchanged
  · dsimp only
    split <;> exact unchanged
  · split
    · next applied => exact Heap.appends_applyBinary applied
    · exact unchanged
    · exact unchanged
  · next operator _ _ _ _ =>
      cases operator <;> dsimp only <;> split <;> exact unchanged
  · dsimp only
    split <;> exact unchanged
  · dsimp only
    split <;> exact unchanged
  · exact (appends_duplicateAll heap _).trans (Heap.appends_newArray _ _)
  · split <;> exact unchanged
  · split
    · exact heap.appends_newArray _
    · exact unchanged
  · exact unchanged

/-- A turn of an evaluation leaves all arrays that are there as they are. -/
theorem advance_appends (evaluation : Evaluation) (heap : Heap) :
    heap.Appends (evaluation.advance heap).2.2 := by
  unfold advance
  split
  · dsimp only
    split <;> exact .refl heap
  · next node scope pending _ =>
      dsimp only
      split
      · exact .refl heap
      · next expression _ =>
          have evaluated : heap.Appends (evaluateNode { evaluation with
              pending, names := scope.bind Value.recordRef?, current := some node }
              heap expression).2.2 := by
            unfold evaluateNode
            split
            · exact appends_apply _ _ _ _
            · exact .refl heap
          generalize evaluateNode _ heap expression = answer at evaluated ⊢
          obtain ⟨outcome, after, grown⟩ := answer
          cases outcome <;> exact evaluated

end Evaluation

/-!
## Statements
-/

namespace Context

variable (context : Context) (heap : Heap)

private theorem arrays_tryBranches (branches : List (ExpressionRef × Option StatementRef))
    (otherwise : Option (Option StatementRef)) (following : Option StatementRef) :
    (context.tryBranches heap branches otherwise following).heap.arrays = heap.arrays := by
  cases branches with
  | cons branch rest => rfl
  | nil => cases otherwise <;> rfl

private theorem arrays_nextPass (loop : StatementRef) (item : String)
    (body : Option StatementRef) :
    (context.nextPass heap loop item body).heap.arrays = heap.arrays := by
  unfold nextPass
  split <;> rfl

theorem arrays_beginStatement (this : StatementRef) (statement : Statement) :
    (context.beginStatement heap this statement).heap.arrays = heap.arrays := by
  cases statement with
  | expression | whileLoop | pass | record | define => rfl
  | print values => cases values <;> rfl
  | assign target => cases target <;> rfl
  | returnValue value => cases value <;> rfl
  | branch branches otherwise => exact context.arrays_tryBranches heap _ _ _
  | forLoop item iterable body span =>
      unfold beginStatement
      dsimp only
      split
      · exact context.arrays_nextPass heap this item body
      · rfl
  | breakLoops | continueLoop | delete =>
      unfold beginStatement
      dsimp only
      split <;> rfl

/-- Handing a value to a statement makes arrays and writes items, but changes no length. -/
theorem deliver_keepsLengths (continuation : Continuation) (value : Value) :
    heap.KeepsLengths (context.deliver heap continuation value).heap := by
  cases continuation with
  | discard | assignElementOf | assignElementAt | returnValue => exact .of_arrays rfl
  | print line rest => cases rest <;> exact .of_arrays rfl
  | assignMemberOf =>
      unfold deliver
      dsimp only
      split <;> exact .of_arrays rfl
  | assignName | assignMember =>
      simp only [deliver]
      split
      · next combined =>
          exact (AssignOperator.appends_combine combined).keepsLengths.trans (.of_arrays rfl)
      · exact .of_arrays rfl
  | assignElement object index operator span =>
      simp only [deliver]
      split
      · next stored grown combined =>
          have made := (AssignOperator.appends_combine combined).keepsLengths
          split
          · next written same => exact made.trans (Heap.keepsLengths_setElement same)
          · exact made
      · exact .of_arrays rfl
  | branch body rest otherwise following =>
      simp only [deliver]
      split
      · exact .of_arrays rfl
      · exact .of_arrays (context.arrays_tryBranches heap rest otherwise following)
  | whileLoop =>
      simp only [deliver]
      split <;> exact .of_arrays rfl
  | forLoop loop item body span =>
      simp only [deliver]
      split
      · next iteration _ =>
          exact .of_arrays
            ((context.setIteration (some iteration)).arrays_nextPass heap loop item body)
      · exact .of_arrays rfl

end Context

namespace Session

/-!
## Native functions
-/

theorem appends_namespaceValues (session : Session) (namespaces : List RecordRef) :
    session.heap.Appends (session.namespaceValues namespaces).2.heap := by
  induction namespaces generalizing session with
  | nil => exact .refl _
  | cons reference rest ih =>
      simp only [namespaceValues]
      split
      · exact ih session
      · exact (session.heap.appends_newArray _).trans
          (ih (session.newArrayValue ((session.heap.record reference).names.map Value.text)).2)

/-- Native functions leave all arrays that are there as they are. -/
theorem appends_runNative (session : Session) (action : NativeAction) (arguments : List Value)
    (receiver : Option Value) :
    session.heap.Appends (session.runNative action arguments receiver).2.heap := by
  cases action with
  | length | typeName | text | number | clock | rest => exact .refl _
  | hasMember =>
      unfold runNative
      dsimp only
      split <;> exact .refl _
  | suspend =>
      simp only [runNative, suspend]
      split <;> exact .refl _
  | range | memberNames =>
      unfold runNative
      dsimp only
      split
      · exact session.heap.appends_newArray _
      · exact .refl _
  | report =>
      have shown := session.appends_namespaceValues session.namespaces
      exact (shown.trans (Heap.appends_newArray _ _)).trans (Heap.appends_newArray _ _)

/-!
## Turns
-/

private theorem arrays_unwind (failure : RuntimeError) (top : Activation) (heap : Heap)
    (below : List Activation) : (unwind failure top heap below).2.2.arrays = heap.arrays := by
  induction below generalizing failure top heap with
  | nil => rfl
  | cons caller below ih =>
      unfold unwind
      split
      · exact (ih _ _ _).trans (top.context.arrays_release heap)
      · exact (ih _ _ _).trans (top.context.arrays_release heap)
      · rfl

private theorem arrays_raise (session : Session) (failure : RuntimeError) (top : Activation)
    (below : List Activation) :
    (session.raise failure top below).2.heap.arrays = session.heap.arrays :=
  arrays_unwind failure top session.heap below

private theorem arrays_settleStatement (session : Session) (outcome : StatementOutcome)
    (below : List Activation) :
    (session.settleStatement outcome below).2.heap.arrays = outcome.heap.arrays := by
  cases outcome with
  | done | line | evaluate | declare => rfl
  | failed failure context heap => exact arrays_raise _ _ _ _

private theorem appends_beginCall (session : Session) (request : CallRequest)
    (scope : Option Value) (context : Context) (continuation : Continuation)
    (below : List Activation) :
    session.heap.Appends (session.beginCall request scope context continuation below).2.heap := by
  unfold beginCall
  dsimp only
  split
  · exact .of_arrays (arrays_raise _ _ _ _)
  · split
    · next action _ =>
        have native := appends_runNative
          { session with stack := ⟨context, .evaluating continuation⟩ :: below } action
          request.arguments request.receiver
        generalize runNative _ action _ _ = answer at native
        obtain ⟨answer, after⟩ := answer
        cases answer with
        | ok value =>
            dsimp only [modifyContext]
            split <;> exact native
        | error cause => exact native.trans (.of_arrays (arrays_raise _ _ _ _))
    · next script entry _ =>
        have bound := (session.heap.newRecord .empty).2.appends_bindParameters
          (session.heap.newRecord .empty).1 (session.heap.function request.function).parameters
          request.arguments
        cases request.receiver <;> exact bound

private theorem arrays_complete (session : Session) (top : Context) (caller : Activation)
    (below : List Activation) :
    (session.complete top caller below).2.heap.arrays = session.heap.arrays := by
  unfold complete
  dsimp only
  split
  · exact top.arrays_release session.heap
  · split
    · rfl
    · next left _ => exact (arrays_raise _ _ _ _).trans (left.arrays_release session.heap)
  · rfl

/-- No turn changes the length of an array that is there, whatever is called and written. -/
theorem advance_keepsLengths (session : Session) :
    session.heap.KeepsLengths session.advance.2.heap := by
  unfold advance
  split
  · dsimp only
    split <;> exact .of_arrays rfl
  · next top below _ =>
      split
      · dsimp only
        split
        · exact .of_arrays (arrays_raise _ _ _ _)
        · unfold beginNext
          split
          · cases below with
            | nil => exact .of_arrays rfl
            | cons caller below => exact .of_arrays (arrays_complete _ _ _ _)
          · split
            · exact .of_arrays rfl
            · exact .of_arrays
                ((arrays_settleStatement _ _ _).trans (Context.arrays_beginStatement _ _ _ _))
      · next continuation _ =>
          have made := (top.context.evaluation.advance_appends session.heap).keepsLengths
          generalize top.context.evaluation.advance session.heap = answer at made
          obtain ⟨turn, evaluation, heap⟩ := answer
          cases turn with
          | working => exact made
          | call request scope =>
              exact made.trans (appends_beginCall { session with heap } _ _ _ _ _).keepsLengths
          | finished value =>
              exact made.trans ((Context.deliver_keepsLengths _ _ _ _).trans
                (.of_arrays (arrays_settleStatement _ _ _)))
          | failed failure => exact made.trans (.of_arrays (arrays_raise _ _ _ _))
          | endless => exact .of_arrays rfl
      · exact .of_arrays rfl
      · exact .of_arrays rfl

end Session

end ScriptEngine
