import ScriptEngine.Proofs.Evaluation.Schedule
import ScriptEngine.Proofs.Machine.Follows

/-!
# The stack of results follows recursion

A machine that takes an evaluation through its turns, started with a node and all
that it needs in front of any pending nodes and on top of any results, does what
recursion over the node's tree says. Where it arrives the node's result is on top
of the same results, and the same nodes are pending.
-/

set_option autoImplicit false

namespace ScriptEngine

/-- The evaluation has come to where the results stand and the nodes are pending. -/
def Machine.Arrived {machine : Machine} (Sound : Session → Prop)
    (place : Evaluation → Session → machine.Configuration) (script : Script) (chain : ScopeChain)
    (pending : List PendingNode) (results : List ScopedResult) (session : Session)
    (stop : machine.Configuration) : Prop :=
  Sound session ∧ ∃ names current,
    stop = place ⟨script, chain, pending, results, names, current⟩ session

namespace Machine.Evaluates

open Evaluation (scheduled scheduledAll scheduled_eq advance_node)

variable {machine : Machine} {call : CallRequest → Effect Value} {Sound : Session → Prop}
  {place : Evaluation → Session → machine.Configuration} {script : Script} {chain : ScopeChain}
  {pending : List PendingNode} {results : List ScopedResult} {names : Option RecordRef}
  {current : Option ExpressionRef} {session : Session}

section

variable (evaluates : machine.Evaluates call Sound place script chain)

include evaluates

private theorem compute_follows {node : ExpressionRef} {scope : Option Value}
    {expression : Expression} {span : Span}
    {action : Heap → Option (Except RuntimeCause (Value × Heap))} (operands : List ScopedResult)
    (sound : Sound session)
    (found : script.expression? node = some expression)
    (enough : operands.length = expression.operands.length)
    (applied : ∀ evaluation : Evaluation, evaluation.names = scope.bind Value.recordRef? →
      evaluation.chain = chain →
      evaluation.apply session.heap expression operands =
        match action session.heap with
        | some (.ok (value, heap)) => (.value value, evaluation, heap)
        | some (.error cause) => (.failed (.placed cause span), evaluation, session.heap)
        | none => (.endless, evaluation, session.heap)) :
    machine.Follows
      (place ⟨script, chain, ⟨node, scope⟩ :: pending, operands.reverse ++ results, names, current⟩
        session)
      (fun value => Arrived Sound place script chain pending (⟨value, scope⟩ :: results))
      (Effect.compute span action session) := by
  have turn := advance_node operands chain scope pending results names current session.heap found enough
  rw [applied _ rfl rfl] at turn
  unfold Effect.compute
  generalize action session.heap = answer at turn
  cases answer with
  | none => exact evaluates.endless sound turn
  | some answer =>
      cases answer with
      | ok answer =>
          obtain ⟨value, heap⟩ := answer
          obtain ⟨stillSound, reached⟩ := evaluates.working sound turn
          exact ⟨_, reached, stillSound, _, _, rfl⟩
      | error cause => exact evaluates.failed sound turn

private theorem onHeap_follows {node : ExpressionRef} {scope : Option Value}
    {expression : Expression} {span : Span}
    {action : Heap → Except RuntimeCause (Value × Heap)} (operands : List ScopedResult)
    (sound : Sound session)
    (found : script.expression? node = some expression)
    (enough : operands.length = expression.operands.length)
    (applied : ∀ evaluation : Evaluation, evaluation.names = scope.bind Value.recordRef? →
      evaluation.chain = chain →
      evaluation.apply session.heap expression operands =
        match action session.heap with
        | .ok (value, heap) => (.value value, evaluation, heap)
        | .error cause => (.failed (.placed cause span), evaluation, session.heap)) :
    machine.Follows
      (place ⟨script, chain, ⟨node, scope⟩ :: pending, operands.reverse ++ results, names, current⟩
        session)
      (fun value => Arrived Sound place script chain pending (⟨value, scope⟩ :: results))
      (Effect.onHeap span action session) := by
  refine evaluates.compute_follows operands sound found enough ?_
  intro evaluation narrowed sameChain
  rw [applied evaluation narrowed sameChain]
  cases action session.heap <;> rfl

/-- A node that only deals with the heap, in the scope of the whole expression. -/
private theorem plain_follows {node : ExpressionRef} {expression : Expression} {span : Span}
    {action : Heap → Except RuntimeCause (Value × Heap)} (operands : List ScopedResult)
    (sound : Sound session) (found : script.expression? node = some expression)
    (enough : operands.length = expression.operands.length)
    (applied : ∀ evaluation : Evaluation, evaluation.names = none → evaluation.chain = chain →
      evaluation.apply session.heap expression operands =
        match action session.heap with
        | .ok (value, heap) => (.value value, evaluation, heap)
        | .error cause => (.failed (.placed cause span), evaluation, session.heap)) :
    machine.Follows
      (place ⟨script, chain, ⟨node, none⟩ :: pending, operands.reverse ++ results, names, current⟩
        session)
      (fun result => Arrived Sound place script chain pending (result :: results))
      ((Effect.onHeap span action >>= fun value => Pure.pure (.plain value)) session) := by
  refine Follows.bind (evaluates.onHeap_follows operands sound found enough applied) ?_
  intro value after stop arrived
  exact .pure arrived

/-- The name behind an object, which is looked up in the object alone. -/
private theorem member_follows {node last : ExpressionRef} {object : ExpressionRef}
    {holder : ScopedResult} {identifier : String} {nameSpan span : Span} (sound : Sound session)
    (found : script.expression? node = some (.member object last span))
    (lastFound : script.expression? last = some (.name identifier nameSpan)) :
    machine.Follows
      (place ⟨script, chain, ⟨node, none⟩ :: pending, holder :: results, names, current⟩ session)
      (fun value =>
        Arrived Sound place script chain pending (⟨value, some holder.value⟩ :: results))
      (Effect.lookupMember holder.value identifier nameSpan span session) := by
  have turn := advance_node [holder] chain none pending results names current session.heap found rfl
  unfold Effect.lookupMember
  simp only [Evaluation.apply] at turn
  generalize isRecord : holder.value.recordRef? = record? at turn
  cases record? with
  | none => exact evaluates.failed sound turn
  | some record =>
      obtain ⟨_, reached⟩ := evaluates.working sound turn
      refine Follows.after reached ?_
      have spelled : (ExpressionTree.name identifier nameSpan).At script last := lastFound
      change machine.Follows
        (place ⟨script, chain, scheduled script last (some holder.value) pending, results, none,
          some node⟩ session) _ _
      rw [scheduled_eq spelled lastFound]
      refine evaluates.onHeap_follows [] sound lastFound rfl ?_
      intro evaluation narrowed _
      simp only [Evaluation.apply, Evaluation.lookup, narrowed, Option.bind_some, isRecord]
      cases session.heap.lookup record identifier <;> rfl

private theorem call_follows {node callee : ExpressionRef} {arguments : List ExpressionRef}
    {target : ScopedResult} {given : List ScopedResult} {span : Span} (sound : Sound session)
    (found : script.expression? node = some (.call callee arguments span))
    (enough : given.length = arguments.length) :
    machine.Follows
      (place ⟨script, chain, ⟨node, none⟩ :: pending, given.reverse ++ target :: results, names,
        current⟩ session)
      (fun value => Arrived Sound place script chain pending (.plain value :: results))
      (Effect.callValue call target (given.map ScopedResult.value) span session) := by
  have turn := advance_node (target :: given) chain none pending results names current
    session.heap found (by simp [Expression.operands, enough])
  rw [List.reverse_cons, List.append_assoc, List.singleton_append] at turn
  unfold Effect.callValue
  simp only [Evaluation.apply] at turn
  generalize target.value = callee? at turn
  cases callee? with
  | function function =>
      refine Follows.mono (evaluates.called sound turn) ?_
      rintro value after stop ⟨sound, rfl⟩
      exact ⟨sound, _, _, rfl⟩
  | none | number | text | bool | array | record => exact evaluates.failed sound turn

end

mutual

theorem evaluate_follows (evaluates : machine.Evaluates call Sound place script chain)
    (tree : ExpressionTree) {node : ExpressionRef}
    (spelled : tree.At script node) (pending : List PendingNode) (results : List ScopedResult)
    (names : Option RecordRef) (current : Option ExpressionRef) {session : Session}
    (sound : Sound session) :
    machine.Follows
      (place ⟨script, chain, scheduled script node none pending, results, names, current⟩ session)
      (fun result => Arrived Sound place script chain pending (result :: results))
      (tree.evaluate call chain session) := by
  cases tree with
  | constant value span =>
      have found : script.expression? node = some (.constant value span) := spelled
      have turn := advance_node [] chain none pending results names current
        session.heap found rfl
      obtain ⟨stillSound, reached⟩ := evaluates.working sound turn
      rw [scheduled_eq spelled found]
      exact ⟨_, reached, stillSound, _, _, rfl⟩
  | name identifier span =>
      have found : script.expression? node = some (.name identifier span) := spelled
      rw [scheduled_eq spelled found]
      refine evaluates.plain_follows [] sound found rfl ?_
      intro evaluation unscoped sameChain
      simp only [Evaluation.apply, Evaluation.lookup, unscoped, sameChain]
      cases session.heap.lookupChain chain.toList identifier <;> rfl
  | unary operator operand span =>
      obtain ⟨inner, found, before, operandAt⟩ := id spelled
      rw [scheduled_eq spelled found]
      refine Follows.bind (evaluates.evaluate_follows operand operandAt _ results names current sound) ?_
      rintro result after stop ⟨sound, names, current, rfl⟩
      refine evaluates.plain_follows [result] sound found rfl ?_
      intro evaluation unscoped sameChain
      simp only [Evaluation.apply]
      cases after.heap.applyUnary operator result.value <;> rfl
  | binary operator left right span =>
      obtain ⟨first, second, found, ⟨_, leftAt⟩, _, rightAt⟩ := id spelled
      rw [scheduled_eq spelled found]
      refine Follows.bind (evaluates.evaluate_follows left leftAt _ results names current sound) ?_
      rintro leftResult middle stop ⟨sound, names, current, rfl⟩
      refine Follows.bind (evaluates.evaluate_follows right rightAt _ _ names current sound) ?_
      rintro rightResult after stop ⟨sound, names, current, rfl⟩
      refine Follows.bind
        (evaluates.compute_follows [leftResult, rightResult] sound found rfl ?_) ?_
      · intro evaluation unscoped sameChain
        cases applied : after.heap.applyBinary operator leftResult.value rightResult.value with
        | none => simp only [Evaluation.apply, applied]
        | some answer => cases answer <;> simp only [Evaluation.apply, applied]
      · intro value last stop arrived
        exact .pure arrived
  | shortCircuit operator left right span =>
      obtain ⟨first, second, found, ⟨_, leftAt⟩, _, rightAt⟩ := id spelled
      rw [scheduled_eq spelled found]
      refine Follows.bind (evaluates.evaluate_follows left leftAt _ results names current sound) ?_
      rintro result after stop ⟨sound, names, current, rfl⟩
      have turn := advance_node [result] chain none pending results names current after.heap
        found rfl
      have decided : Evaluation.apply ⟨script, chain, pending, results, none, some node⟩ after.heap
          (.shortCircuit operator first second span) [result] =
        if operator.decides after.heap result.value then
          (.value result.value, ⟨script, chain, pending, results, none, some node⟩, after.heap)
        else
          (.delegated, ⟨script, chain, scheduled script second none pending, results, none,
            some node⟩, after.heap) := by
        cases operator <;> rfl
      rw [Option.bind_none, decided] at turn
      simp only [Bind.bind, Effect.bind, Effect.fromHeap]
      by_cases decides : operator.decides after.heap result.value
      · rw [if_pos decides] at turn ⊢
        obtain ⟨_, reached⟩ := evaluates.working sound turn
        exact Follows.after reached (.pure ⟨sound, none, some node, rfl⟩)
      · rw [if_neg decides] at turn ⊢
        obtain ⟨_, reached⟩ := evaluates.working sound turn
        exact Follows.after reached
          (evaluates.evaluate_follows right rightAt pending results none (some node) sound)
  | member object identifier nameSpan span =>
      obtain ⟨inner, last, found, ⟨_, objectAt⟩, _, lastFound⟩ := id spelled
      rw [scheduled_eq spelled found]
      refine Follows.bind (evaluates.evaluate_follows object objectAt _ results names current sound) ?_
      rintro holder after stop ⟨sound, names, current, rfl⟩
      refine Follows.bind (evaluates.member_follows sound found lastFound) ?_
      intro value last stop arrived
      exact .pure arrived
  | element object index span =>
      obtain ⟨first, second, found, ⟨_, objectAt⟩, _, indexAt⟩ := id spelled
      rw [scheduled_eq spelled found]
      refine Follows.bind (evaluates.evaluate_follows object objectAt _ results names current sound) ?_
      rintro holder middle stop ⟨sound, names, current, rfl⟩
      refine Follows.bind (evaluates.evaluate_follows index indexAt _ _ names current sound) ?_
      rintro position after stop ⟨sound, names, current, rfl⟩
      refine evaluates.plain_follows [holder, position] sound found rfl ?_
      intro evaluation unscoped sameChain
      simp only [Evaluation.apply]
      cases after.heap.element holder.value position.value <;> rfl
  | array elements span =>
      obtain ⟨items, found, elementsAt⟩ := id spelled
      rw [scheduled_eq spelled found]
      refine Follows.bind
        (evaluates.evaluateAll_follows elements elementsAt _ results names current sound) ?_
      rintro given after stop ⟨enough, sound, names, current, rfl⟩
      refine evaluates.plain_follows given sound found enough ?_
      intro evaluation unscoped sameChain
      rfl
  | call callee arguments span =>
      obtain ⟨first, items, found, ⟨_, calleeAt⟩, argumentsAt⟩ := id spelled
      rw [scheduled_eq spelled found]
      refine Follows.bind (evaluates.evaluate_follows callee calleeAt _ results names current sound) ?_
      rintro target middle stop ⟨sound, names, current, rfl⟩
      refine Follows.bind
        (evaluates.evaluateAll_follows arguments argumentsAt _ _ names current sound) ?_
      rintro given after stop ⟨enough, sound, names, current, rfl⟩
      refine Follows.bind (evaluates.call_follows sound found enough) ?_
      intro value last stop arrived
      exact .pure arrived

theorem evaluateAll_follows (evaluates : machine.Evaluates call Sound place script chain)
    (trees : List ExpressionTree) {nodes : List ExpressionRef} {bound : Nat}
    (spelled : ExpressionTree.AllAt script trees nodes bound)
    (pending : List PendingNode) (results : List ScopedResult) (names : Option RecordRef)
    (current : Option ExpressionRef) {session : Session} (sound : Sound session) :
    machine.Follows
      (place ⟨script, chain, scheduledAll script nodes pending, results, names, current⟩ session)
      (fun given after stop => given.length = nodes.length ∧
        Arrived Sound place script chain pending (given.reverse ++ results) after stop)
      (ExpressionTree.evaluateAll call chain trees session) := by
  cases trees with
  | nil =>
      cases nodes with
      | nil => exact .pure ⟨rfl, sound, names, current, rfl⟩
      | cons => exact spelled.elim
  | cons tree trees =>
      cases nodes with
      | nil => exact spelled.elim
      | cons node nodes =>
          obtain ⟨⟨_, treeAt⟩, restAt⟩ := spelled
          refine Follows.bind (evaluates.evaluate_follows tree treeAt _ results names current sound) ?_
          rintro first middle stop ⟨sound, names, current, rfl⟩
          refine Follows.bind (evaluates.evaluateAll_follows trees restAt _ _ names current sound) ?_
          rintro rest after stop ⟨enough, sound, names, current, rfl⟩
          refine .pure ⟨by simp [enough], sound, names, current, ?_⟩
          simp

end

/-- Evaluating an expression from scratch ends with the value that recursion gives,
and leaves an evaluation with nothing to do. -/
theorem value_follows (evaluates : machine.Evaluates call Sound place script chain)
    {tree : ExpressionTree} {node : ExpressionRef} (spelled : tree.At script node)
    (session : Session) (sound : Sound session) :
    machine.Follows (place ((Evaluation.new script chain).begin node) session)
      (fun value after stop => Sound after ∧ ∃ last : Evaluation, stop = place last after ∧
        last.advance after.heap = (.finished value, Evaluation.new script chain, after.heap))
      (tree.value call chain session) := by
  refine Follows.bind (evaluates.evaluate_follows tree spelled [] [] none none sound) ?_
  rintro result after stop ⟨sound, names, current, rfl⟩
  exact .pure ⟨sound, _, rfl, rfl⟩

end Machine.Evaluates

end ScriptEngine
