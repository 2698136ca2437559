import ScriptEngine.Session.Advance

/-!
# What operations fail with

No operation on values, no native function and no statement complains about
results that an expression left behind. Only an evaluation does, when its nodes
and their results do not fit together.
-/

set_option autoImplicit false

namespace ScriptEngine

/-- The cause is not about results that an expression left behind. -/
def RuntimeCause.Ordinary : RuntimeCause → Prop
  | .unbalancedResults _ => False
  | _ => True

theorem RuntimeCause.ordinary_iff {cause : RuntimeCause} :
    cause.Ordinary ↔ ∀ count, cause ≠ .unbalancedResults count := by
  constructor
  · rintro ordinary count rfl
    exact ordinary
  · intro different
    cases cause with
    | unbalancedResults count => exact different count rfl
    | _ => trivial

/-- An operation fails with ordinary causes only. -/
def Except.Ordinary {α : Type} (answer : Except RuntimeCause α) : Prop :=
  ∀ cause, answer = .error cause → cause.Ordinary

namespace Except.Ordinary

variable {α β : Type}

theorem ok (value : α) : Ordinary (.ok value : Except RuntimeCause α) := nofun

theorem error {cause : RuntimeCause} (ordinary : cause.Ordinary) :
    Ordinary (.error cause : Except RuntimeCause α) := by
  rintro _ ⟨⟩
  exact ordinary

theorem map {answer : Except RuntimeCause α} (ordinary : Ordinary answer) (change : α → β) :
    Ordinary (answer.map change) := by
  cases answer with
  | ok value => exact ok _
  | error cause => exact error (ordinary cause rfl)

end Except.Ordinary

namespace Value

theorem ordinary_arithmetic (operation : Float → Float → Float) (left right : Value) :
    Except.Ordinary (arithmetic operation left right) := by
  unfold arithmetic
  split
  · exact .ok _
  · exact .error trivial

theorem ordinary_ordered (accepts : Ordering → Bool) (left right : Value) :
    Except.Ordinary (ordered accepts left right) := by
  unfold ordered
  split
  · exact .ok _
  · exact .ok _
  · exact .error trivial

end Value

theorem ordinary_indexPosition (index : Value) (length : Nat) :
    Except.Ordinary (indexPosition index length) := by
  unfold indexPosition
  split
  · split
    · exact .error trivial
    · dsimp only
      split
      · split
        · exact .ok _
        · exact .error trivial
      · split
        · exact .ok _
        · exact .error trivial
  · exact .error trivial

namespace Heap

theorem ordinary_add (heap : Heap) (left right : Value) : Except.Ordinary (heap.add left right) := by
  unfold add
  split
  · exact .ok _
  · exact .ok _
  · exact .ok _
  · exact .error trivial

theorem ordinary_applyUnary (heap : Heap) (operator : UnaryOperator) (operand : Value) :
    Except.Ordinary (heap.applyUnary operator operand) := by
  cases operator with
  | not => exact .ok _
  | minus =>
      cases operand with
      | number number => exact .ok _
      | none | text | bool | array | record | function => exact .error trivial

theorem ordinary_contains {heap : Heap} {container item : Value}
    {answer : Except RuntimeCause Bool} (contained : heap.contains container item = some answer) :
    Except.Ordinary answer := by
  unfold contains at contained
  split at contained
  · obtain ⟨held, _, rfl⟩ := Option.map_eq_some_iff.mp contained
    exact .ok held
  · cases contained
    exact .ok _
  · cases contained
    exact .ok _
  · cases contained
    exact .error trivial

theorem ordinary_applyBinary {heap : Heap} {operator : BinaryOperator} {left right : Value}
    {answer : Except RuntimeCause (Value × Heap)}
    (applied : heap.applyBinary operator left right = some answer) : Except.Ordinary answer := by
  cases operator with
  | add =>
      cases applied
      exact heap.ordinary_add left right
  | subtract | multiply | divide | modulo =>
      cases applied
      exact (Value.ordinary_arithmetic _ left right).map _
  | equal | notEqual =>
      obtain ⟨same, _, rfl⟩ := Option.map_eq_some_iff.mp applied
      exact .ok _
  | lessThan | lessThanOrEqual | greaterThan | greaterThanOrEqual =>
      cases applied
      exact (Value.ordinary_ordered _ left right).map _
  | contained =>
      obtain ⟨held, contained, rfl⟩ := Option.map_eq_some_iff.mp applied
      exact ((ordinary_contains contained).map _).map _

theorem ordinary_element (heap : Heap) (object index : Value) :
    Except.Ordinary (heap.element object index) := by
  unfold element
  split
  · dsimp only
    split
    · exact .ok _
    · next failed => exact .error (ordinary_indexPosition _ _ _ failed)
  · dsimp only
    split
    · exact .ok _
    · next failed => exact .error (ordinary_indexPosition _ _ _ failed)
  · split
    · exact .ok _
    · exact .error trivial
  · exact .error trivial

theorem ordinary_setElement (heap : Heap) (object index value : Value) :
    Except.Ordinary (heap.setElement object index value) := by
  unfold setElement
  split
  · split
    · exact .ok _
    · next failed => exact .error (ordinary_indexPosition _ _ _ failed)
  · exact .ok _
  · exact .error trivial

end Heap

theorem Iteration.ordinary_start (source : Value) : Except.Ordinary (Iteration.start source) := by
  cases source with
  | array | text | record => exact .ok _
  | none | number | bool | function => exact .error trivial

theorem Evaluation.ordinary_lookup (evaluation : Evaluation) (heap : Heap) (name : String) :
    Except.Ordinary (evaluation.lookup heap name) := by
  unfold lookup
  split
  · split
    · exact .ok _
    · exact .error trivial
  · split
    · exact .ok _
    · exact .error trivial

theorem AssignOperator.ordinary_combine (operator : AssignOperator) (heap : Heap)
    (current : Unit → Except RuntimeCause Value) (value : Value)
    (ordinary : Except.Ordinary (current ())) :
    Except.Ordinary (operator.combine heap current value) := by
  cases operator with
  | set => exact .ok _
  | add =>
      simp only [combine]
      split
      · exact heap.ordinary_add _ value
      · next failed => exact .error (ordinary _ failed)
  | subtract =>
      simp only [combine]
      split
      · exact (Value.ordinary_arithmetic _ _ value).map _
      · next failed => exact .error (ordinary _ failed)

theorem Function.ordinary_checkArity (function : Function) (count : Nat) :
    Except.Ordinary (function.checkArity count) := by
  unfold checkArity
  split
  · exact .ok _
  · exact .error trivial

namespace Session

theorem ordinary_receiverRecord (receiver : Option Value) :
    Except.Ordinary (receiverRecord receiver) := by
  unfold receiverRecord
  split
  · exact .error trivial
  · split
    · exact .ok _
    · exact .error trivial

theorem ordinary_lengthOf (heap : Heap) (value : Value) :
    Except.Ordinary (lengthOf heap value) := by
  cases value with
  | text | array | record => exact .ok _
  | none | number | bool | function => exact .error trivial

theorem ordinary_numberOf (value : Value) : Except.Ordinary (numberOf value) := by
  unfold numberOf
  split
  · exact .ok _
  · exact .ok _
  · split
    · exact .ok _
    · exact .error trivial
  · exact .error trivial

theorem ordinary_rangeLength (value : Value) : Except.Ordinary (rangeLength value) := by
  unfold rangeLength
  split
  · split
    · exact .ok _
    · exact .error trivial
  · exact .error trivial

theorem ordinary_runNative (session : Session) (action : NativeAction) (arguments : List Value)
    (receiver : Option Value) :
    Except.Ordinary (session.runNative action arguments receiver).1 := by
  cases action with
  | length => exact (ordinary_lengthOf _ _).map _
  | typeName | text | clock | rest | suspend | report => exact .ok _
  | number => exact (ordinary_numberOf _).map _
  | range =>
      simp only [runNative]
      split
      · exact .ok _
      · next failed => exact .error (ordinary_rangeLength _ _ failed)
  | memberNames =>
      simp only [runNative]
      split
      · exact .ok _
      · next failed => exact .error (ordinary_receiverRecord _ _ failed)
  | hasMember =>
      simp only [runNative]
      split
      · exact (ordinary_receiverRecord receiver).map _
      · exact .error trivial

end Session

end ScriptEngine
