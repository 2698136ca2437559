import ScriptEngine.Proofs.Evaluation.Schedule
import ScriptEngine.Proofs.Evaluation.Turn
import ScriptEngine.Proofs.Script.Growth
import ScriptEngine.Proofs.Value.Failure

/-!
# Pending nodes and results fit together

Every pending node finds as many results as it has operands and leaves one. When
all of them have had their turn a single result is there. Nodes that schedule
another one instead of giving a result keep this as it is, so an evaluation that
was begun with a node that spells a tree never complains about its results.
-/

set_option autoImplicit false

namespace ScriptEngine.Evaluation

/-- Given that many results, the pending nodes find what they need and leave a
single one. -/
def Balances (script : Script) : List PendingNode → Nat → Prop
  | [], count => count = 1
  | pending :: rest, count =>
      ∃ expression, script.expression? pending.node = some expression ∧
        expression.operands.length ≤ count ∧
        Balances script rest (count - expression.operands.length + 1)

private theorem balances_scheduledAll {script : Script} {nodes : List ExpressionRef}
    {pending : List PendingNode} {count : Nat}
    (each : ∀ node ∈ nodes, ∀ (later : List PendingNode) (count : Nat),
      Balances script later (count + 1) → Balances script (scheduled script node none later) count)
    (balances : Balances script pending (count + nodes.length)) :
    Balances script (scheduledAll script nodes pending) count := by
  induction nodes generalizing count with
  | nil => exact balances
  | cons node nodes ih =>
      refine each node List.mem_cons_self _ count ?_
      refine ih (fun other member => each other (List.mem_cons_of_mem _ member)) ?_
      rw [List.length_cons] at balances
      rwa [Nat.add_assoc, Nat.add_comm 1]

theorem balances_scheduled {script : Script} {tree : ExpressionTree} {node : ExpressionRef}
    (spelled : tree.At script node) (scope : Option Value) {pending : List PendingNode}
    {count : Nat} (balances : Balances script pending (count + 1)) :
    Balances script (scheduled script node scope pending) count := by
  obtain ⟨position, own⟩ : ∃ position, node.index = position := ⟨_, rfl⟩
  induction position using Nat.strongRecOn generalizing tree node scope pending count with
  | ind position ih =>
      obtain ⟨expression, found⟩ := spelled.found
      rw [scheduled_eq spelled found]
      refine balances_scheduledAll ?_ ⟨expression, found, by omega, ?_⟩
      · intro operand member later inner balances
        obtain ⟨before, operandTree, operandAt⟩ := spelled.operand found member
        exact ih operand.index (own ▸ before) operandAt none balances rfl
      · rwa [Nat.add_sub_cancel]

/-- The pending nodes of the evaluation find what they need, if there are `more`
results on top of those that it has. -/
def Balanced (evaluation : Evaluation) (more : Nat) : Prop :=
  Balances evaluation.script evaluation.pending (evaluation.results.length + more)

theorem balanced_begin {evaluation : Evaluation} {tree : ExpressionTree} {node : ExpressionRef}
    (spelled : tree.At evaluation.script node) : (evaluation.begin node).Balanced 0 :=
  balances_scheduled spelled none rfl

/-- What a turn may come to when the nodes and the results fit together. -/
def TurnBalanced : Turn → Evaluation → Prop
  | .working, after => after.Balanced 0
  | .call _ _, after => after.Balanced 1
  | .finished _, _ => True
  | .failed failure, _ => failure.cause.Ordinary
  | .endless, _ => True

/-- What a node may come to when it has been given its operands and the pending
nodes behind it count on one more result. -/
def OutcomeBalanced : NodeOutcome → Evaluation → Prop
  | .value _, after => after.Balanced 1
  | .delegated, after => after.Balanced 0
  | .call _, after => after.Balanced 1
  | .failed failure, _ => failure.cause.Ordinary
  | .endless, _ => True

private theorem answer_balanced {evaluation : Evaluation} {heap : Heap} {span : Span}
    (answer : Except RuntimeCause Value) (outcome : NodeOutcome × Evaluation × Heap)
    (same : outcome =
      match answer with
      | .ok value => (.value value, evaluation, heap)
      | .error cause => (.failed (.placed cause span), evaluation, heap))
    (ordinary : Except.Ordinary answer) (balanced : evaluation.Balanced 1) :
    OutcomeBalanced outcome.1 outcome.2.1 := by
  subst same
  cases answer with
  | ok value => exact balanced
  | error cause => exact ordinary cause rfl

private theorem apply_balanced {evaluation : Evaluation} {node : ExpressionRef}
    {tree : ExpressionTree} {expression : Expression} (spelled : tree.At evaluation.script node)
    (found : evaluation.script.expression? node = some expression) (heap : Heap)
    {operands : List ScopedResult} (enough : operands.length = expression.operands.length)
    (balanced : evaluation.Balanced 1) :
    OutcomeBalanced (evaluation.apply heap expression operands).1
      (evaluation.apply heap expression operands).2.1 := by
  cases tree with
  | constant value span =>
      obtain rfl := Option.some.inj (found.symm.trans spelled)
      exact balanced
  | name identifier span =>
      obtain rfl := Option.some.inj (found.symm.trans spelled)
      exact answer_balanced _ _ rfl (evaluation.ordinary_lookup heap identifier) balanced
  | unary operator inner span =>
      obtain ⟨first, same, _⟩ := spelled
      obtain rfl := Option.some.inj (found.symm.trans same)
      obtain ⟨operand, rfl⟩ := List.length_eq_one_iff.mp enough
      exact answer_balanced _ _ rfl (heap.ordinary_applyUnary operator operand.value) balanced
  | binary operator left right span =>
      obtain ⟨first, second, same, _⟩ := spelled
      obtain rfl := Option.some.inj (found.symm.trans same)
      obtain ⟨leftResult, rightResult, rfl⟩ := List.length_eq_two.mp enough
      simp only [apply]
      split
      · exact balanced
      · next cause applied => exact Heap.ordinary_applyBinary applied cause rfl
      · trivial
  | shortCircuit operator left right span =>
      obtain ⟨first, second, same, _, _, rightAt⟩ := spelled
      obtain rfl := Option.some.inj (found.symm.trans same)
      obtain ⟨leftResult, rfl⟩ := List.length_eq_one_iff.mp enough
      have delegated : (evaluation.schedule second none).Balanced 0 :=
        balances_scheduled rightAt none balanced
      cases operator <;> simp only [apply] <;> split
      · exact balanced
      · exact delegated
      · exact balanced
      · exact delegated
  | member object identifier nameSpan span =>
      obtain ⟨first, last, same, _, _, lastFound⟩ := spelled
      obtain rfl := Option.some.inj (found.symm.trans same)
      obtain ⟨holder, rfl⟩ := List.length_eq_one_iff.mp enough
      have lastAt : (ExpressionTree.name identifier nameSpan).At evaluation.script last := lastFound
      simp only [apply]
      split
      · exact balances_scheduled lastAt (some holder.value) balanced
      · trivial
  | element object index span =>
      obtain ⟨first, second, same, _⟩ := spelled
      obtain rfl := Option.some.inj (found.symm.trans same)
      obtain ⟨holder, position, rfl⟩ := List.length_eq_two.mp enough
      exact answer_balanced _ _ rfl (heap.ordinary_element holder.value position.value) balanced
  | array elements span =>
      obtain ⟨items, same, _⟩ := spelled
      obtain rfl := Option.some.inj (found.symm.trans same)
      exact balanced
  | call callee arguments span =>
      obtain ⟨first, items, same, _⟩ := spelled
      obtain rfl := Option.some.inj (found.symm.trans same)
      obtain ⟨target, given, rfl⟩ := List.exists_cons_of_length_eq_add_one enough
      simp only [apply]
      split
      · exact balanced
      · trivial

theorem advance_balanced {evaluation : Evaluation} (planted : evaluation.script.Planted)
    (balanced : evaluation.Balanced 0) (heap : Heap) :
    TurnBalanced (evaluation.advance heap).1 (evaluation.advance heap).2.1 := by
  obtain ⟨script, chain, pending, results, names, current⟩ := evaluation
  cases pending with
  | nil =>
      obtain ⟨result, rfl⟩ := List.length_eq_one_iff.mp balanced
      trivial
  | cons next rest =>
      obtain ⟨node, scope⟩ := next
      obtain ⟨expression, found, enough, balanced⟩ := balanced
      dsimp only at planted found enough balanced
      obtain ⟨tree, spelled⟩ := planted node (Array.getElem?_eq_some_iff.mp found).choose
      have split : results =
          ((results.take expression.operands.length).reverse.reverse ++
            results.drop expression.operands.length) := by
        rw [List.reverse_reverse, List.take_append_drop]
      have taken : (results.take expression.operands.length).reverse.length =
          expression.operands.length := by
        rw [List.length_reverse, List.length_take]
        omega
      rw [split, advance_node _ chain scope rest _ names current heap found taken]
      have left : Balanced ⟨script, chain, rest, results.drop expression.operands.length,
          scope.bind Value.recordRef?, some node⟩ 1 := by
        simpa [Balanced, List.length_drop] using balanced
      have outcome := apply_balanced spelled found heap taken left
      generalize apply _ heap expression _ = answer at outcome
      obtain ⟨answer, after, grown⟩ := answer
      cases answer with
      | value value =>
          change after.Balanced 1 at outcome
          simpa [endTurn, TurnBalanced, Balanced, pushResult] using outcome
      | delegated | call | failed | endless => exact outcome

end ScriptEngine.Evaluation
