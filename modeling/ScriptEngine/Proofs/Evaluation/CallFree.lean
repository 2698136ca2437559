import ScriptEngine.Evaluation
import ScriptEngine.Proofs.Script.Links

/-!
# Expressions without calls

Every node that an evaluation schedules is a part of the expression that it began with. So the
evaluation of an expression that contains no call asks for none
(`Evaluation.CallFree.advance`).
-/

set_option autoImplicit false

namespace ScriptEngine

def Expression.isCall : Expression → Bool
  | .call .. => true
  | _ => false

namespace Script

/-- The second node is the first one, or stands somewhere below it. -/
inductive Contains (script : Script) : ExpressionRef → ExpressionRef → Prop where
  | self (node : ExpressionRef) : Contains script node node
  | part {node child inner : ExpressionRef} {expression : Expression}
      (found : script.expression? node = some expression) (member : child ∈ expression.children)
      (inside : Contains script child inner) : Contains script node inner

/-- The expression contains no call. -/
def CallFree (script : Script) (node : ExpressionRef) : Prop :=
  ∀ inner, script.Contains node inner → ∀ callee arguments span,
    script.expression? inner ≠ some (.call callee arguments span)

variable {script : Script}

theorem CallFree.child {node child : ExpressionRef} {expression : Expression}
    (free : script.CallFree node) (found : script.expression? node = some expression)
    (member : child ∈ expression.children) : script.CallFree child :=
  fun inner inside => free inner (.part found member inside)

theorem callFree_of_none (none : (script.expressions.any Expression.isCall) = false)
    (node : ExpressionRef) : script.CallFree node := by
  intro inner _ callee arguments span found
  have plain := Array.any_eq_false'.mp none _ (Array.mem_of_getElem? found)
  exact plain rfl

end Script

theorem Expression.children_of_operands {expression : Expression} {operand : ExpressionRef}
    (member : operand ∈ expression.operands) : operand ∈ expression.children := by
  cases expression with
  | constant | name | silent | scopeNames => cases member
  | unary | binary | element | array | call => exact member
  | shortCircuit | member => exact List.mem_cons.mpr (.inl (List.mem_singleton.mp member))

namespace Evaluation

/-- No node that waits for its turn contains a call. -/
def CallFree (evaluation : Evaluation) : Prop :=
  ∀ waiting ∈ evaluation.pending, evaluation.script.CallFree waiting.node

theorem callFree_scheduleWithin {script : Script} (depth : Nat) {node : ExpressionRef}
    {scope : Option Value} {pending : List PendingNode} (free : script.CallFree node)
    (pendingFree : ∀ waiting ∈ pending, script.CallFree waiting.node) :
    ∀ waiting ∈ scheduleWithin script depth node scope pending, script.CallFree waiting.node := by
  have placed (scope : Option Value) :
      ∀ waiting ∈ (⟨node, scope⟩ : PendingNode) :: pending, script.CallFree waiting.node :=
    List.forall_mem_cons.mpr ⟨free, pendingFree⟩
  induction depth generalizing node scope pending with
  | zero => exact placed scope
  | succ depth ih =>
      cases found : script.expression? node with
      | none =>
          simp only [scheduleWithin, found, Option.elim_none, List.foldr_nil]
          exact placed scope
      | some expression =>
          have parts (operand : ExpressionRef) (member : operand ∈ expression.operands) :
              script.CallFree operand :=
            free.child found (Expression.children_of_operands member)
          simp only [scheduleWithin, found, Option.elim_some]
          generalize expression.operands = operands at parts
          induction operands with
          | nil => exact placed scope
          | cons operand operands later =>
              obtain ⟨first, others⟩ := List.forall_mem_cons.mp parts
              have rest := later others
              exact ih first rest fun _ => List.forall_mem_cons.mpr ⟨first, rest⟩

variable {evaluation : Evaluation}

theorem callFree_begin {expression : ExpressionRef} (free : evaluation.script.CallFree expression) :
    (evaluation.begin expression).CallFree :=
  callFree_scheduleWithin _ free (List.forall_mem_nil _)

namespace CallFree

variable (free : evaluation.CallFree) (heap : Heap)

include free

theorem schedule {node : ExpressionRef} (nodeFree : evaluation.script.CallFree node)
    (scope : Option Value) : (evaluation.schedule node scope).CallFree :=
  callFree_scheduleWithin _ nodeFree free

section

variable {node : Expression} (parts : ∀ child ∈ node.children, evaluation.script.CallFree child)
  (plain : ∀ callee arguments span, node ≠ .call callee arguments span)

include parts plain

theorem apply (operands : List ScopedResult) :
    (evaluation.apply heap node operands).2.1.CallFree ∧
      ∀ request, (evaluation.apply heap node operands).1 ≠ .call request := by
  unfold Evaluation.apply
  split
  · exact ⟨free, nofun⟩
  · dsimp only
    split <;> exact ⟨free, nofun⟩
  · dsimp only
    split <;> exact ⟨free, nofun⟩
  · split <;> exact ⟨free, nofun⟩
  · next operator _ right _ _ =>
      have scheduled := free.schedule (parts right (by simp [Expression.children])) none
      cases operator with
      | and | or =>
          dsimp only
          split
          · exact ⟨free, nofun⟩
          · exact ⟨scheduled, nofun⟩
  · next member _ object =>
      dsimp only
      split
      · exact ⟨free.schedule (parts member (by simp [Expression.children])) _, nofun⟩
      · exact ⟨free, nofun⟩
  · dsimp only
    split <;> exact ⟨free, nofun⟩
  · exact ⟨free, nofun⟩
  · exact (plain _ _ _ rfl).elim
  · split <;> exact ⟨free, nofun⟩
  · exact ⟨free, nofun⟩

theorem evaluateNode : (evaluation.evaluateNode heap node).2.1.CallFree ∧
    ∀ request, (evaluation.evaluateNode heap node).1 ≠ .call request := by
  have dropped (results : List ScopedResult) :
      ({ evaluation with results } : Evaluation).CallFree := free
  unfold Evaluation.evaluateNode popResults
  split
  · next taken =>
      split at taken
      · cases taken
        exact (dropped (evaluation.results.drop node.operands.length)).apply heap parts plain _
      · cases taken
  · next taken =>
      split at taken
      · cases taken
      · cases taken
        exact ⟨dropped [], nofun⟩

end

/-- The evaluation asks for no call, and its nodes contain none afterwards. -/
theorem advance : (evaluation.advance heap).2.1.CallFree ∧
    ∀ request scope, (evaluation.advance heap).1 ≠ .call request scope := by
  unfold Evaluation.advance
  split
  · dsimp only
    split
    · exact ⟨free, nofun⟩
    · exact ⟨List.forall_mem_nil _, nofun⟩
  · next node scope pending waiting =>
      rw [CallFree, waiting] at free
      obtain ⟨nodeFree, pendingFree⟩ := List.forall_mem_cons.mp free
      have later : ({ evaluation with
          pending, names := scope.bind Value.recordRef?, current := some node } :
          Evaluation).CallFree := pendingFree
      dsimp only
      split
      · exact ⟨pendingFree, nofun⟩
      · next expression found =>
          have evaluated := later.evaluateNode heap (fun child => nodeFree.child found)
            fun _ _ _ call => nodeFree node (.self node) _ _ _ (call ▸ found)
          generalize Evaluation.evaluateNode _ heap expression = answer at evaluated ⊢
          obtain ⟨outcome, after, grown⟩ := answer
          cases outcome with
          | value | delegated | failed | endless => exact ⟨evaluated.1, nofun⟩
          | call request => exact (evaluated.2 request rfl).elim

end CallFree

end Evaluation

end ScriptEngine
