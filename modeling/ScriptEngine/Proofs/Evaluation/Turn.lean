import ScriptEngine.Evaluation

/-!
# What a turn of an evaluation leaves alone

The script and the scope chain stay as they are, and of the heap only the arrays
can grow.
-/

set_option autoImplicit false

namespace ScriptEngine

/-- The heap has the same functions and records as before. -/
structure Heap.KeepsObjects (before after : Heap) : Prop where
  functions : after.functions = before.functions
  records : after.records = before.records

namespace Heap.KeepsObjects

theorem refl (heap : Heap) : heap.KeepsObjects heap := ⟨rfl, rfl⟩

theorem trans {first second third : Heap} (early : first.KeepsObjects second)
    (late : second.KeepsObjects third) : first.KeepsObjects third :=
  ⟨late.functions.trans early.functions, late.records.trans early.records⟩

end Heap.KeepsObjects

namespace Heap

theorem keepsObjects_newArray (heap : Heap) (items : Array Value) :
    heap.KeepsObjects (heap.newArray items).2 := ⟨rfl, rfl⟩

theorem keepsObjects_duplicate (heap : Heap) (value : Value) :
    heap.KeepsObjects (heap.duplicate value).2 := by
  cases value <;> exact ⟨rfl, rfl⟩

theorem keepsObjects_add {heap after : Heap} {left right sum : Value}
    (added : heap.add left right = .ok (sum, after)) : heap.KeepsObjects after := by
  unfold add at added
  split at added <;> cases added <;> exact ⟨rfl, rfl⟩

/-- The value refers to no object and is no text. -/
private def Scalar (value : Value) : Prop :=
  (∃ number, value = .number number) ∨ ∃ truth, value = .bool truth

private theorem scalar_arithmetic {operation : Float → Float → Float} {left right value : Value}
    (computed : Value.arithmetic operation left right = .ok value) : Scalar value := by
  unfold Value.arithmetic at computed
  split at computed <;> cases computed
  exact .inl ⟨_, rfl⟩

private theorem scalar_ordered {accepts : Ordering → Bool} {left right value : Value}
    (compared : Value.ordered accepts left right = .ok value) : Scalar value := by
  unfold Value.ordered at compared
  split at compared <;> cases compared <;> exact .inr ⟨_, rfl⟩

private theorem scalar_map {answer : Except RuntimeCause Value} {heap after : Heap} {value : Value}
    (scalar : ∀ value, answer = .ok value → Scalar value)
    (mapped : answer.map (fun value => (value, heap)) = .ok (value, after)) :
    after = heap ∧ Scalar value := by
  cases answer with
  | error cause => cases mapped
  | ok result =>
      cases mapped
      exact ⟨rfl, scalar _ rfl⟩

/-- A binary operator adds, or it gives a number or a truth value and leaves the heap
alone. -/
theorem applyBinary_ok {heap after : Heap} {operator : BinaryOperator} {left right value : Value}
    (applied : heap.applyBinary operator left right = some (.ok (value, after))) :
    heap.add left right = .ok (value, after) ∨ after = heap ∧
      ((∃ number, value = .number number) ∨ ∃ truth, value = .bool truth) := by
  have truth (answer : Except RuntimeCause Bool) (value : Value)
      (given : answer.map Value.bool = .ok value) : Scalar value := by
    cases answer <;> cases given
    exact .inr ⟨_, rfl⟩
  cases operator with
  | add => exact .inl (Option.some.inj applied)
  | subtract | multiply | divide | modulo =>
      exact .inr (scalar_map (fun _ => scalar_arithmetic) (Option.some.inj applied))
  | lessThan | lessThanOrEqual | greaterThan | greaterThanOrEqual =>
      exact .inr (scalar_map (fun _ => scalar_ordered) (Option.some.inj applied))
  | equal =>
      obtain ⟨same, _, given⟩ := Option.map_eq_some_iff.mp applied
      exact .inr (scalar_map (truth (.ok same)) given)
  | notEqual =>
      obtain ⟨same, _, given⟩ := Option.map_eq_some_iff.mp applied
      exact .inr (scalar_map (truth (.ok !same)) given)
  | contained =>
      obtain ⟨held, _, given⟩ := Option.map_eq_some_iff.mp applied
      exact .inr (scalar_map (truth held) given)

theorem keepsObjects_applyBinary {heap after : Heap} {operator : BinaryOperator}
    {left right value : Value}
    (applied : heap.applyBinary operator left right = some (.ok (value, after))) :
    heap.KeepsObjects after := by
  rcases applyBinary_ok applied with added | ⟨rfl, _⟩
  · exact keepsObjects_add added
  · exact .refl after

end Heap

namespace Evaluation

/-- The evaluation stands in the same script and looks names up along the same
chain as before. -/
structure KeepsPlace (before after : Evaluation) : Prop where
  script : after.script = before.script
  chain : after.chain = before.chain

theorem duplicateAll_keepsObjects (heap : Heap) (values : List Value) :
    heap.KeepsObjects (duplicateAll heap values).2 := by
  induction values generalizing heap with
  | nil => exact .refl heap
  | cons value rest ih => exact (heap.keepsObjects_duplicate value).trans (ih _)

theorem apply_keeps (evaluation : Evaluation) (heap : Heap) (node : Expression)
    (operands : List ScopedResult) :
    evaluation.KeepsPlace (evaluation.apply heap node operands).2.1 ∧
      heap.KeepsObjects (evaluation.apply heap node operands).2.2 := by
  have unchanged : evaluation.KeepsPlace evaluation ∧ heap.KeepsObjects heap :=
    ⟨⟨rfl, rfl⟩, .refl heap⟩
  unfold apply
  split
  · exact unchanged
  · dsimp only
    split <;> exact unchanged
  · dsimp only
    split <;> exact unchanged
  · split
    · next applied => exact ⟨⟨rfl, rfl⟩, Heap.keepsObjects_applyBinary applied⟩
    · exact unchanged
    · exact unchanged
  · next operator _ _ _ _ =>
      cases operator <;> dsimp only <;> split <;> exact ⟨⟨rfl, rfl⟩, .refl heap⟩
  · dsimp only
    split <;> exact ⟨⟨rfl, rfl⟩, .refl heap⟩
  · dsimp only
    split <;> exact unchanged
  · exact ⟨⟨rfl, rfl⟩, (duplicateAll_keepsObjects heap _).trans (Heap.keepsObjects_newArray _ _)⟩
  · split <;> exact unchanged
  · split
    · exact ⟨⟨rfl, rfl⟩, Heap.keepsObjects_newArray _ _⟩
    · exact unchanged
  · exact unchanged

theorem evaluateNode_keeps (evaluation : Evaluation) (heap : Heap) (node : Expression) :
    evaluation.KeepsPlace (evaluation.evaluateNode heap node).2.1 ∧
      heap.KeepsObjects (evaluation.evaluateNode heap node).2.2 := by
  unfold evaluateNode popResults
  split
  · next operands taken found =>
      split at found
      · cases found
        obtain ⟨⟨script, chain⟩, objects⟩ := apply_keeps
          { evaluation with results := evaluation.results.drop node.operands.length } heap node
          (evaluation.results.take node.operands.length).reverse
        exact ⟨⟨script, chain⟩, objects⟩
      · cases found
  · next left found =>
      split at found
      · cases found
      · cases found
        exact ⟨⟨rfl, rfl⟩, .refl heap⟩

/-- A turn leaves the script and the chain alone, and adds only arrays to the heap. -/
theorem advance_keeps (evaluation : Evaluation) (heap : Heap) :
    evaluation.KeepsPlace (evaluation.advance heap).2.1 ∧
      heap.KeepsObjects (evaluation.advance heap).2.2 := by
  unfold advance
  split
  · dsimp only
    split <;> exact ⟨⟨rfl, rfl⟩, .refl heap⟩
  · dsimp only
    split
    · exact ⟨⟨rfl, rfl⟩, .refl heap⟩
    · next node scope pending _ _ expression _ =>
        have kept := evaluateNode_keeps
          { evaluation with
            pending, names := scope.bind Value.recordRef?, current := some node } heap expression
        generalize evaluateNode _ heap expression = answer at kept ⊢
        obtain ⟨outcome, after, grown⟩ := answer
        obtain ⟨⟨script, chain⟩, objects⟩ := kept
        cases outcome <;> exact ⟨⟨script, chain⟩, objects⟩

end Evaluation

end ScriptEngine
