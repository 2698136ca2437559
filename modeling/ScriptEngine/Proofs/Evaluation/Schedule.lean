import Mathlib.Data.List.Basic
import ScriptEngine.Evaluation
import ScriptEngine.Proofs.Script.Tree

/-!
# One turn of an evaluation

What scheduling a node that spells a tree puts in front of the pending nodes, and
what a node does when the results of its operands are on top.
-/

set_option autoImplicit false

namespace ScriptEngine

/-- The operands that a node needs stand before it and spell trees themselves. -/
theorem ExpressionTree.At.operand {script : Script} {tree : ExpressionTree} {node : ExpressionRef}
    (spelled : tree.At script node) {expression : Expression}
    (found : script.expression? node = some expression) {operand : ExpressionRef}
    (member : operand ∈ expression.operands) :
    operand.index < node.index ∧ ∃ tree : ExpressionTree, tree.At script operand := by
  cases tree with
  | constant | name =>
      obtain rfl := Option.some.inj (found.symm.trans spelled)
      cases member
  | unary operator inner span =>
      obtain ⟨first, same, before, innerAt⟩ := spelled
      obtain rfl := Option.some.inj (found.symm.trans same)
      obtain rfl := List.mem_singleton.mp member
      exact ⟨before, inner, innerAt⟩
  | binary operator left right span =>
      obtain ⟨first, second, same, ⟨leftBefore, leftAt⟩, rightBefore, rightAt⟩ := spelled
      obtain rfl := Option.some.inj (found.symm.trans same)
      rcases List.mem_cons.mp member with rfl | member
      · exact ⟨leftBefore, left, leftAt⟩
      · obtain rfl := List.mem_singleton.mp member
        exact ⟨rightBefore, right, rightAt⟩
  | shortCircuit operator left right span =>
      obtain ⟨first, second, same, ⟨leftBefore, leftAt⟩, _⟩ := spelled
      obtain rfl := Option.some.inj (found.symm.trans same)
      obtain rfl := List.mem_singleton.mp member
      exact ⟨leftBefore, left, leftAt⟩
  | member object identifier nameSpan span =>
      obtain ⟨first, last, same, ⟨objectBefore, objectAt⟩, _⟩ := spelled
      obtain rfl := Option.some.inj (found.symm.trans same)
      obtain rfl := List.mem_singleton.mp member
      exact ⟨objectBefore, object, objectAt⟩
  | element object index span =>
      obtain ⟨first, second, same, ⟨objectBefore, objectAt⟩, indexBefore, indexAt⟩ := spelled
      obtain rfl := Option.some.inj (found.symm.trans same)
      rcases List.mem_cons.mp member with rfl | member
      · exact ⟨objectBefore, object, objectAt⟩
      · obtain rfl := List.mem_singleton.mp member
        exact ⟨indexBefore, index, indexAt⟩
  | array elements span =>
      obtain ⟨items, same, elementsAt⟩ := spelled
      obtain rfl := Option.some.inj (found.symm.trans same)
      exact elementsAt.mem member
  | call callee arguments span =>
      obtain ⟨first, items, same, ⟨calleeBefore, calleeAt⟩, argumentsAt⟩ := spelled
      obtain rfl := Option.some.inj (found.symm.trans same)
      rcases List.mem_cons.mp member with rfl | member
      · exact ⟨calleeBefore, callee, calleeAt⟩
      · exact argumentsAt.mem member

namespace Evaluation

/-- A depth that reaches past the node's own position is as good as any larger one. -/
theorem scheduleWithin_stable {script : Script} (depth : Nat) {tree : ExpressionTree}
    {node : ExpressionRef} (spelled : tree.At script node) (within : node.index ≤ depth)
    (scope : Option Value) :
    scheduleWithin script (depth + 1) node scope = scheduleWithin script depth node scope := by
  funext pending
  induction depth generalizing tree node scope pending with
  | zero =>
      obtain ⟨expression, found⟩ := spelled.found
      have none : expression.operands = [] := by
        apply List.eq_nil_iff_forall_not_mem.mpr
        intro operand member
        have := (spelled.operand found member).1
        omega
      simp [scheduleWithin, found, none]
  | succ depth ih =>
      obtain ⟨expression, found⟩ := spelled.found
      rw [scheduleWithin, scheduleWithin]
      simp only [found, Option.elim_some]
      apply List.foldr_ext
      intro operand member later
      obtain ⟨before, inner, innerAt⟩ := spelled.operand found member
      exact ih innerAt (by omega) none later

/-- The pending nodes with a node in front, behind everything that it needs. -/
def scheduled (script : Script) (node : ExpressionRef) (scope : Option Value)
    (pending : List PendingNode) : List PendingNode :=
  scheduleWithin script script.expressions.size node scope pending

/-- The pending nodes with several nodes in front, all in the caller's scope. -/
def scheduledAll (script : Script) (nodes : List ExpressionRef) (pending : List PendingNode) :
    List PendingNode :=
  nodes.foldr (fun node later => scheduled script node none later) pending

/-- A node that spells a tree is scheduled behind all that its operands need. -/
theorem scheduled_eq {script : Script} {tree : ExpressionTree} {node : ExpressionRef}
    (spelled : tree.At script node) {expression : Expression}
    (found : script.expression? node = some expression) (scope : Option Value)
    (pending : List PendingNode) :
    scheduled script node scope pending =
      scheduledAll script expression.operands (⟨node, scope⟩ :: pending) := by
  have present := (Array.getElem?_eq_some_iff.mp found).choose
  rw [scheduled, ← scheduleWithin_stable _ spelled (by omega), scheduleWithin]
  simp only [found, Option.elim_some]
  rfl

/-- How the outcome of a node whose turn it was ends the turn. -/
def endTurn (scope : Option Value) : NodeOutcome × Evaluation × Heap → Turn × Evaluation × Heap
  | (.value value, evaluation, heap) => (.working, evaluation.pushResult value scope, heap)
  | (.delegated, evaluation, heap) => (.working, evaluation, heap)
  | (.call request, evaluation, heap) => (.call request scope, evaluation, heap)
  | (.failed failure, evaluation, heap) => (.failed failure, evaluation, heap)
  | (.endless, evaluation, heap) => (.endless, evaluation, heap)

theorem advance_node {script : Script} {node : ExpressionRef} {expression : Expression}
    (operands : List ScopedResult) (chain : ScopeChain) (scope : Option Value)
    (pending : List PendingNode) (results : List ScopedResult) (names : Option RecordRef)
    (current : Option ExpressionRef) (heap : Heap)
    (found : script.expression? node = some expression)
    (enough : operands.length = expression.operands.length) :
    advance ⟨script, chain, ⟨node, scope⟩ :: pending, operands.reverse ++ results, names, current⟩
        heap =
      endTurn scope
        (apply ⟨script, chain, pending, results, scope.bind Value.recordRef?, some node⟩ heap
          expression operands) := by
  have length : operands.reverse.length = expression.operands.length := by
    rw [List.length_reverse, enough]
  have taken : (operands.reverse ++ results).take expression.operands.length = operands.reverse := by
    rw [← length, List.take_left]
  have left : (operands.reverse ++ results).drop expression.operands.length = results := by
    rw [← length, List.drop_left]
  have available : expression.operands.length ≤ (operands.reverse ++ results).length := by
    simp [enough]
  simp only [advance, found, evaluateNode, popResults, available, if_true, taken, left,
    List.reverse_reverse]
  generalize apply _ heap expression operands = answer
  obtain ⟨outcome, evaluation, heap⟩ := answer
  cases outcome <;> rfl

end Evaluation

end ScriptEngine
