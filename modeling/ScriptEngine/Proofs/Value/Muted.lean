import ScriptEngine.Session.Advance

/-!
# Heaps whose functions do not suspend

A heap is muted by letting every native function that asks for the session to be
suspended do nothing instead. Values hold references to functions only, and of a
function no operation on values shows more than its name. So each of them gives the
same on a muted heap, and leaves the muted form of the heap that it leaves otherwise;
so does the evaluation of an expression up to its calls.
-/

set_option autoImplicit false

namespace ScriptEngine

namespace NativeAction

def muted : NativeAction → NativeAction
  | .suspend => .rest
  | action => action

end NativeAction

namespace Function

/-- The function, without a request for the session to be suspended. -/
def muted (function : Function) : Function :=
  match function.body with
  | .native action => { function with body := .native action.muted }
  | .script .. => function

@[simp] theorem muted_name (function : Function) : function.muted.name = function.name := by
  unfold muted
  split <;> rfl

@[simp] theorem muted_parameters (function : Function) :
    function.muted.parameters = function.parameters := by
  unfold muted
  split <;> rfl

theorem muted_of_native {function : Function} {action : NativeAction}
    (body : function.body = .native action) : function.muted.body = .native action.muted := by
  simp only [muted, body]

theorem muted_of_script {function : Function} {script : Script} {entry : Option StatementRef}
    (body : function.body = .script script entry) : function.muted = function := by
  simp only [muted, body]

@[simp] theorem checkArity_muted (function : Function) (count : Nat) :
    function.muted.checkArity count = function.checkArity count := by
  simp only [checkArity, muted_parameters]

end Function

namespace Heap

/-- The heap with every function muted. -/
def muted (heap : Heap) : Heap :=
  { heap with functions := heap.functions.map Function.muted }

variable (heap : Heap)

@[simp] theorem array_muted (reference : ArrayRef) :
    heap.muted.array reference = heap.array reference := rfl

@[simp] theorem record_muted (reference : RecordRef) :
    heap.muted.record reference = heap.record reference := rfl

@[simp] theorem function_muted (reference : FunctionRef) :
    heap.muted.function reference = (heap.function reference).muted := by
  simp only [muted, function, Array.getElem?_map]
  cases heap.functions[reference.address]? <;> rfl

theorem newArray_muted (items : Array Value) :
    heap.muted.newArray items = ((heap.newArray items).1, (heap.newArray items).2.muted) := rfl

theorem newRecord_muted (record : Record) :
    heap.muted.newRecord record = ((heap.newRecord record).1, (heap.newRecord record).2.muted) :=
  rfl

/-- A function that a script defines is not muted. -/
theorem newFunction_muted {function : Function} (unmuted : function.muted = function) :
    heap.muted.newFunction function =
      ((heap.newFunction function).1, (heap.newFunction function).2.muted) := by
  simp [newFunction, muted, unmuted]

theorem setMember_muted (reference : RecordRef) (name : String) (value : Value) :
    heap.muted.setMember reference name value = (heap.setMember reference name value).muted := rfl

theorem release_muted (context : Context) :
    context.release heap.muted = (context.release heap).muted := by
  unfold Context.release
  split <;> rfl

/-!
## What is read
-/

@[simp] theorem lookupWithin_muted (name : String) (links : Nat) (reference : RecordRef) :
    heap.muted.lookupWithin name links reference = heap.lookupWithin name links reference := by
  induction links generalizing reference with
  | zero =>
      unfold lookupWithin
      simp only [record_muted]
  | succ links ih =>
      unfold lookupWithin
      simp only [record_muted, array_muted]
      split
      · rfl
      · split
        · next same _ =>
            cases same
            exact ih _
        · next same _ =>
            cases same
            simp only [ih]
        · rfl

@[simp] theorem lookup_muted (reference : RecordRef) (name : String) :
    heap.muted.lookup reference name = heap.lookup reference name :=
  heap.lookupWithin_muted name inheritanceLimit reference

@[simp] theorem lookupChain_muted (chain : List RecordRef) (name : String) :
    heap.muted.lookupChain chain name = heap.lookupChain chain name := by
  simp only [lookupChain, lookup_muted]

@[simp] theorem element_muted (object index : Value) :
    heap.muted.element object index = heap.element object index := by
  unfold element
  simp only [array_muted, lookup_muted]

@[simp] theorem equalWithin_muted (depth : Nat) :
    heap.muted.equalWithin depth = heap.equalWithin depth := by
  induction depth with
  | zero =>
      funext left right
      cases left <;> cases right <;> rfl
  | succ depth ih =>
      funext left right
      cases left <;> cases right
      case array.array left right =>
        simp only [equalWithin, array_muted, ih]
      all_goals rfl

@[simp] theorem equal?_muted (left right : Value) :
    heap.muted.equal? left right = heap.equal? left right := by
  simp only [equal?, equalWithin_muted]
  rfl

@[simp] theorem holdsEqual_muted (sought : Value) (items : List Value) :
    heap.muted.holdsEqual sought items = heap.holdsEqual sought items := by
  induction items with
  | nil => rfl
  | cons held rest ih => simp only [holdsEqual, equal?_muted, ih]

@[simp] theorem nestedText_muted (levels : Nat) :
    heap.muted.nestedText levels = heap.nestedText levels := by
  induction levels with
  | zero =>
      funext value
      cases value <;> simp only [nestedText, function_muted, Function.muted_name]
  | succ levels ih =>
      funext value
      cases value <;>
        simp only [nestedText, function_muted, Function.muted_name, array_muted, ih]

@[simp] theorem text_muted (value : Value) : heap.muted.text value = heap.text value := by
  cases value <;> simp only [text, nestedText_muted, array_muted, record_muted]

@[simp] theorem isTruthy_muted (value : Value) :
    heap.muted.isTruthy value = heap.isTruthy value := by
  cases value <;> rfl

@[simp] theorem contains_muted (container item : Value) :
    heap.muted.contains container item = heap.contains container item := by
  unfold contains
  simp only [array_muted, holdsEqual_muted, lookup_muted]

@[simp] theorem applyUnary_muted (operator : UnaryOperator) (operand : Value) :
    heap.muted.applyUnary operator operand = heap.applyUnary operator operand := by
  cases operator <;> simp only [applyUnary, isTruthy_muted]

/-!
## What is made or changed
-/

/-- An answer with the heap that it leaves, muted. -/
def muteBehind {α : Type} (answer : Except RuntimeCause (α × Heap)) :
    Except RuntimeCause (α × Heap) :=
  answer.map fun (value, heap) => (value, heap.muted)

theorem duplicate_muted (value : Value) :
    heap.muted.duplicate value = ((heap.duplicate value).1, (heap.duplicate value).2.muted) := by
  cases value <;> rfl

theorem duplicateAll_muted (values : List Value) :
    Evaluation.duplicateAll heap.muted values =
      ((Evaluation.duplicateAll heap values).1,
        (Evaluation.duplicateAll heap values).2.muted) := by
  induction values generalizing heap with
  | nil => rfl
  | cons value rest ih => simp only [Evaluation.duplicateAll, duplicate_muted, ih]

theorem bindParameters_muted (locals : RecordRef) (parameters : List String)
    (arguments : List Value) :
    heap.muted.bindParameters locals parameters arguments =
      (heap.bindParameters locals parameters arguments).muted := by
  induction parameters generalizing heap arguments with
  | nil => rfl
  | cons parameter parameters ih =>
      cases arguments with
      | nil => rfl
      | cons argument arguments =>
          simp only [bindParameters, duplicate_muted, setMember_muted, ih]

theorem setElement_muted (object index value : Value) :
    heap.muted.setElement object index value =
      (heap.setElement object index value).map Heap.muted := by
  unfold setElement
  split
  · simp only [array_muted]
    split <;> rfl
  · rfl
  · rfl

theorem add_muted (left right : Value) :
    heap.muted.add left right = muteBehind (heap.add left right) := by
  cases left <;> cases right <;> rfl

theorem applyBinary_muted (operator : BinaryOperator) (left right : Value) :
    heap.muted.applyBinary operator left right =
      (heap.applyBinary operator left right).map muteBehind := by
  have unchanged (answer : Except RuntimeCause Value) :
      answer.map (fun value => (value, heap.muted)) =
        muteBehind (answer.map fun value => (value, heap)) := by
    cases answer <;> rfl
  cases operator with
  | add => exact congrArg some (heap.add_muted left right)
  | equal | notEqual | contained =>
      simp only [applyBinary, equal?_muted, contains_muted, unchanged, Option.map_map,
        Function.comp_def]
  | subtract | multiply | divide | modulo => exact congrArg some (unchanged _)
  | lessThan | lessThanOrEqual | greaterThan | greaterThanOrEqual =>
      exact congrArg some (unchanged _)

theorem combine_muted (operator : AssignOperator) (current : Unit → Except RuntimeCause Value)
    (value : Value) :
    operator.combine heap.muted current value =
      muteBehind (operator.combine heap current value) := by
  cases operator with
  | set =>
      simp only [AssignOperator.combine, duplicate_muted]
      rfl
  | add =>
      simp only [AssignOperator.combine, add_muted]
      split <;> rfl
  | subtract =>
      simp only [AssignOperator.combine]
      split
      · next held _ => cases held.subtract value <;> rfl
      · rfl

end Heap

/-!
## Evaluations
-/

namespace Evaluation

variable (evaluation : Evaluation) (heap : Heap)

@[simp] theorem lookup_muted (name : String) :
    evaluation.lookup heap.muted name = evaluation.lookup heap name := by
  simp only [lookup, Heap.lookup_muted, Heap.lookupChain_muted]

theorem apply_muted (node : Expression) (operands : List ScopedResult) :
    evaluation.apply heap.muted node operands =
      ((evaluation.apply heap node operands).1, (evaluation.apply heap node operands).2.1,
        (evaluation.apply heap node operands).2.2.muted) := by
  unfold apply
  dsimp only
  split
  · rfl
  · simp only [lookup_muted]
    split <;> rfl
  · simp only [Heap.applyUnary_muted]
    split <;> rfl
  · next operator _ _ span left right =>
      rw [Heap.applyBinary_muted]
      cases heap.applyBinary operator left.value right.value with
      | none => rfl
      | some answer => cases answer <;> rfl
  · simp only [Heap.isTruthy_muted]
    split <;> split <;> rfl
  · split <;> rfl
  · simp only [Heap.element_muted]
    split <;> rfl
  · simp only [Heap.duplicateAll_muted]
    rfl
  · split <;> rfl
  · split <;> rfl
  · rfl

theorem evaluateNode_muted (node : Expression) :
    evaluation.evaluateNode heap.muted node =
      ((evaluation.evaluateNode heap node).1, (evaluation.evaluateNode heap node).2.1,
        (evaluation.evaluateNode heap node).2.2.muted) := by
  unfold evaluateNode
  split
  · exact apply_muted _ heap node _
  · rfl

theorem advance_muted :
    evaluation.advance heap.muted =
      ((evaluation.advance heap).1, (evaluation.advance heap).2.1,
        (evaluation.advance heap).2.2.muted) := by
  unfold advance
  split
  · dsimp only
    split <;> rfl
  · dsimp only
    split
    · rfl
    · rw [evaluateNode_muted]
      dsimp only
      split <;> rfl

end Evaluation

end ScriptEngine
