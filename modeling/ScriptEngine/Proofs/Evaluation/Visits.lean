import ScriptEngine.Proofs.Evaluation.Schedule

/-!
# The order of evaluation

An evaluation evaluates every node of an expression once: its operands from left to right, then
the node itself, and after it the node that it goes on with. Only the right operand of `and` and
`or` may be left out (`Script.Visits`). What an evaluation does with its pending nodes follows
this order, wherever it stops (`Evaluation.Leaves.stops`).
-/

set_option autoImplicit false

namespace ScriptEngine

/-- The node that is evaluated in place of the expression, if it comes to that. -/
def Expression.following : Expression → Option ExpressionRef
  | .member _ last _ => some last
  | .shortCircuit _ _ right _ => some right
  | _ => none

/-- The value of the expression may be its own. -/
def Expression.MayEnd : Expression → Prop
  | .member .. => False
  | _ => True

namespace Script

mutual

/-- The nodes that are evaluated, one after another, while an expression is evaluated once. -/
inductive Visits (script : Script) : ExpressionRef → List ExpressionRef → Prop where
  | ends {node : ExpressionRef} {expression : Expression} {seen : List ExpressionRef}
      (found : script.expression? node = some expression)
      (operands : VisitsAll script expression.operands seen) (ends : expression.MayEnd) :
      Visits script node (seen ++ [node])
  | goesOn {node next : ExpressionRef} {expression : Expression} {seen later : List ExpressionRef}
      (found : script.expression? node = some expression)
      (operands : VisitsAll script expression.operands seen)
      (follows : expression.following = some next) (rest : Visits script next later) :
      Visits script node (seen ++ node :: later)

/-- The nodes that are evaluated while several expressions are, each of them once. -/
inductive VisitsAll (script : Script) : List ExpressionRef → List ExpressionRef → Prop where
  | nil : VisitsAll script [] []
  | cons {node : ExpressionRef} {nodes seen later : List ExpressionRef}
      (first : Visits script node seen) (rest : VisitsAll script nodes later) :
      VisitsAll script (node :: nodes) (seen ++ later)

end

variable {script : Script}

theorem visitsAll_singleton {node : ExpressionRef} {seen : List ExpressionRef} :
    script.VisitsAll [node] seen ↔ script.Visits node seen := by
  constructor
  · intro visits
    cases visits with
    | cons first rest =>
        cases rest
        rwa [List.append_nil]
  · intro visits
    have whole := VisitsAll.cons visits .nil
    rwa [List.append_nil] at whole

theorem VisitsAll.append {first second seen later : List ExpressionRef}
    (one : script.VisitsAll first seen) (other : script.VisitsAll second later) :
    script.VisitsAll (first ++ second) (seen ++ later) := by
  induction first generalizing seen with
  | nil =>
      cases one
      exact other
  | cons node nodes ih =>
      cases one with
      | cons visits rest =>
          rw [List.append_assoc]
          exact .cons visits (ih rest)

/-- The expressions are evaluated up to somewhere, perhaps to their end. -/
def Visited (script : Script) (nodes seen : List ExpressionRef) : Prop :=
  ∃ whole, script.VisitsAll nodes whole ∧ seen <+: whole

namespace Visited

variable {first second seen whole : List ExpressionRef}

theorem before (visited : script.Visited first seen) (visits : script.VisitsAll second whole) :
    script.Visited (first ++ second) seen := by
  obtain ⟨early, visitsEarly, within⟩ := visited
  exact ⟨early ++ whole, visitsEarly.append visits, within.trans (List.prefix_append _ _)⟩

theorem behind (visits : script.VisitsAll first whole) (visited : script.Visited second seen) :
    script.Visited (first ++ second) (whole ++ seen) := by
  obtain ⟨late, visitsLate, within⟩ := visited
  exact ⟨whole ++ late, visits.append visitsLate, (List.prefix_append_right_inj whole).mpr within⟩

end Visited

end Script

/-- What an expression goes on with stands before it and spells a tree itself. -/
theorem ExpressionTree.At.following {script : Script} {tree : ExpressionTree}
    {node : ExpressionRef} (spelled : tree.At script node) {expression : Expression}
    (found : script.expression? node = some expression) {next : ExpressionRef}
    (follows : expression.following = some next) :
    next.index < node.index ∧ ∃ tree : ExpressionTree, tree.At script next := by
  cases tree with
  | constant | name =>
      obtain rfl := Option.some.inj (found.symm.trans spelled)
      cases follows
  | unary | array =>
      obtain ⟨_, same, _⟩ := spelled
      obtain rfl := Option.some.inj (found.symm.trans same)
      cases follows
  | binary | element | call =>
      obtain ⟨_, _, same, _⟩ := spelled
      obtain rfl := Option.some.inj (found.symm.trans same)
      cases follows
  | shortCircuit operator left right span =>
      obtain ⟨first, second, same, _, rightBefore, rightAt⟩ := spelled
      obtain rfl := Option.some.inj (found.symm.trans same)
      cases follows
      exact ⟨rightBefore, right, rightAt⟩
  | member object identifier nameSpan span =>
      obtain ⟨first, last, same, _, lastBefore, lastFound⟩ := spelled
      obtain rfl := Option.some.inj (found.symm.trans same)
      cases follows
      exact ⟨lastBefore, .name identifier nameSpan, lastFound⟩

namespace Script

variable {script : Script}

theorem exists_visitsAll {nodes : List ExpressionRef}
    (each : ∀ node ∈ nodes, ∃ seen, script.Visits node seen) :
    ∃ seen, script.VisitsAll nodes seen := by
  induction nodes with
  | nil => exact ⟨[], .nil⟩
  | cons node nodes ih =>
      obtain ⟨first, others⟩ := List.forall_mem_cons.mp each
      obtain ⟨seen, visits⟩ := first
      obtain ⟨later, rest⟩ := ih others
      exact ⟨seen ++ later, .cons visits rest⟩

/-- A node is evaluated behind its operands. -/
theorem exists_visits_of_operands {node : ExpressionRef} {expression : Expression}
    (found : script.expression? node = some expression) {seen : List ExpressionRef}
    (operands : script.VisitsAll expression.operands seen)
    (follows : ∀ next, expression.following = some next → ∃ later, script.Visits next later) :
    ∃ later, script.Visits node (seen ++ node :: later) := by
  cases goesOn : expression.following with
  | some next =>
      obtain ⟨later, visits⟩ := follows next goesOn
      exact ⟨later, .goesOn found operands goesOn visits⟩
  | none =>
      refine ⟨[], .ends found operands ?_⟩
      cases expression with
      | member => cases goesOn
      | _ => trivial

end Script

/-- Every expression can be evaluated. -/
theorem ExpressionTree.At.exists_visits {script : Script} {tree : ExpressionTree}
    {node : ExpressionRef} (spelled : tree.At script node) : ∃ seen, script.Visits node seen := by
  obtain ⟨expression, found⟩ := spelled.found
  have operands : ∃ seen, script.VisitsAll expression.operands seen := by
    refine Script.exists_visitsAll fun operand member => ?_
    obtain ⟨before, inner, innerAt⟩ := spelled.operand found member
    exact innerAt.exists_visits
  obtain ⟨seen, operands⟩ := operands
  have follows (next : ExpressionRef) (goesOn : expression.following = some next) :
      ∃ later, script.Visits next later := by
    obtain ⟨before, inner, innerAt⟩ := spelled.following found goesOn
    exact innerAt.exists_visits
  obtain ⟨later, visits⟩ := Script.exists_visits_of_operands found operands follows
  exact ⟨_, visits⟩
termination_by node.index

/-!
## Pending nodes
-/

namespace Evaluation

/-- What is pending after one turn: the node whose turn it was may have put the one that it goes
on with in front of the others. -/
inductive Pops (script : Script) (node : ExpressionRef) (pending : List PendingNode) :
    List PendingNode → Prop where
  | ends (ends : ∀ expression, script.expression? node = some expression → expression.MayEnd) :
      Pops script node pending pending
  | goesOn {expression : Expression} {next : ExpressionRef}
      (found : script.expression? node = some expression)
      (follows : expression.following = some next) (scope : Option Value) :
      Pops script node pending (scheduled script next scope pending)

section

variable (evaluation : Evaluation) (heap : Heap)

private theorem pops_apply {node : ExpressionRef} {expression : Expression}
    (found : evaluation.script.expression? node = some expression)
    {operands : List ScopedResult} (enough : operands.length = expression.operands.length) :
    (∃ failure, (evaluation.apply heap expression operands).1 = .failed failure) ∨
      Pops evaluation.script node evaluation.pending
        (evaluation.apply heap expression operands).2.1.pending := by
  have stays (ends : expression.MayEnd) :
      Pops evaluation.script node evaluation.pending evaluation.pending := by
    refine .ends fun other same => ?_
    obtain rfl := Option.some.inj (found.symm.trans same)
    exact ends
  unfold apply
  split
  · exact .inr (stays trivial)
  · dsimp only
    split
    · exact .inr (stays trivial)
    · exact .inl ⟨_, rfl⟩
  · dsimp only
    split
    · exact .inr (stays trivial)
    · exact .inl ⟨_, rfl⟩
  · split
    · exact .inr (stays trivial)
    · exact .inl ⟨_, rfl⟩
    · exact .inr (stays trivial)
  · next operator left right span _ =>
      cases operator with
      | and | or =>
          dsimp only
          split
          · exact .inr (stays trivial)
          · exact .inr (.goesOn found rfl none)
  · next object =>
      dsimp only
      split
      · exact .inr (.goesOn found rfl (some object.value))
      · exact .inl ⟨_, rfl⟩
  · dsimp only
    split
    · exact .inr (stays trivial)
    · exact .inl ⟨_, rfl⟩
  · exact .inr (stays trivial)
  · split
    · exact .inr (stays trivial)
    · exact .inl ⟨_, rfl⟩
  · split <;> exact .inr (stays trivial)
  · next excluded _ _ =>
      refine .inr (stays ?_)
      cases expression with
      | member object last span =>
          obtain ⟨operand, only⟩ := List.length_eq_one_iff.mp enough
          exact (excluded object last span operand rfl only).elim
      | _ => trivial

private theorem pops_evaluateNode {node : ExpressionRef} {expression : Expression}
    (found : evaluation.script.expression? node = some expression) :
    (∃ failure, (evaluation.evaluateNode heap expression).1 = .failed failure) ∨
      Pops evaluation.script node evaluation.pending
        (evaluation.evaluateNode heap expression).2.1.pending := by
  unfold evaluateNode popResults
  split
  · next taken =>
      split at taken
      · next enough =>
          cases taken
          refine pops_apply { evaluation with
            results := evaluation.results.drop expression.operands.length } heap found ?_
          rw [List.length_reverse, List.length_take, Nat.min_eq_left enough]
      · cases taken
  · exact .inl ⟨_, rfl⟩

/-- A turn that does not fail is the turn of a node. -/
theorem pops_of_working {after : Evaluation} {grown : Heap}
    (turn : evaluation.advance heap = (.working, after, grown)) :
    ∃ waiting pending, evaluation.pending = waiting :: pending ∧
      Pops evaluation.script waiting.node pending after.pending := by
  unfold advance at turn
  split at turn
  · dsimp only at turn
    split at turn <;> cases turn
  · next node scope pending next =>
      refine ⟨⟨node, scope⟩, pending, next, ?_⟩
      dsimp only at turn
      split at turn
      · next missing =>
          cases turn
          refine .ends fun expression found => ?_
          cases found.symm.trans missing
      · next expression found =>
          have pops := pops_evaluateNode { evaluation with
            pending, names := scope.bind Value.recordRef?, current := some node } heap found
          generalize evaluateNode _ heap expression = answer at turn pops
          obtain ⟨outcome, left, grown⟩ := answer
          cases outcome with
          | value | delegated =>
              cases turn
              rcases pops with ⟨_, failed⟩ | pops
              · cases failed
              · exact pops
          | call | failed | endless => cases turn

end

/-- What is pending after the turns of some nodes, one after another. -/
inductive Leaves (script : Script) :
    List PendingNode → List ExpressionRef → List PendingNode → Prop where
  | refl (pending : List PendingNode) : Leaves script pending [] pending
  | turn {node : ExpressionRef} {scope : Option Value} {pending middle final : List PendingNode}
      {seen : List ExpressionRef} (first : Pops script node pending middle)
      (rest : Leaves script middle seen final) :
      Leaves script (⟨node, scope⟩ :: pending) (node :: seen) final

/-- Either all that was scheduled in front of `rest` has been evaluated, or some of it is next. -/
inductive Stops (script : Script) (nodes : List ExpressionRef) (rest final : List PendingNode)
    (seen : List ExpressionRef) : Prop where
  | past {whole later : List ExpressionRef} (split : seen = whole ++ later)
      (visits : script.VisitsAll nodes whole) (further : Leaves script rest later final)
  | within {waiting : PendingNode} (next : final.head? = some waiting)
      (visited : script.Visited nodes (seen ++ [waiting.node]))

variable {script : Script} {rest final : List PendingNode} {seen : List ExpressionRef}

private theorem stops_all {nodes : List ExpressionRef}
    (exist : ∀ node ∈ nodes, ∃ whole, script.Visits node whole)
    (each : ∀ node ∈ nodes, ∀ rest seen,
      Leaves script (scheduled script node none rest) seen final →
        Stops script [node] rest final seen)
    (leaves : Leaves script (scheduledAll script nodes rest) seen final) :
    Stops script nodes rest final seen := by
  induction nodes generalizing seen with
  | nil => exact .past rfl .nil leaves
  | cons node nodes ih =>
      obtain ⟨first, others⟩ := List.forall_mem_cons.mp each
      obtain ⟨_, existLater⟩ := List.forall_mem_cons.mp exist
      cases first _ _ leaves with
      | within next visited =>
          obtain ⟨whole, visits⟩ := Script.exists_visitsAll existLater
          exact .within next (visited.before visits)
      | past split visits further =>
          subst split
          cases ih existLater others further with
          | within next visited =>
              refine .within next ?_
              rw [List.append_assoc]
              exact .behind visits visited
          | past split visitsLater last =>
              subst split
              exact .past (List.append_assoc ..).symm (visits.append visitsLater) last

/-- However far an evaluation goes, it evaluates nodes in their order. -/
theorem Leaves.stops {script : Script} {tree : ExpressionTree} {node : ExpressionRef}
    (spelled : tree.At script node) {scope : Option Value} {rest final : List PendingNode}
    {seen : List ExpressionRef}
    (leaves : Leaves script (scheduled script node scope rest) seen final) :
    Stops script [node] rest final seen := by
  obtain ⟨expression, found⟩ := spelled.found
  have exist (operand : ExpressionRef) (member : operand ∈ expression.operands) :
      ∃ whole, script.Visits operand whole := by
    obtain ⟨_, inner, innerAt⟩ := spelled.operand found member
    exact innerAt.exists_visits
  have follows (next : ExpressionRef) (goesOn : expression.following = some next) :
      ∃ later, script.Visits next later := by
    obtain ⟨_, inner, innerAt⟩ := spelled.following found goesOn
    exact innerAt.exists_visits
  have operands : Stops script expression.operands (⟨node, scope⟩ :: rest) final seen := by
    rw [scheduled_eq spelled found] at leaves
    refine stops_all exist (fun operand member rest seen leaves => ?_) leaves
    obtain ⟨before, inner, innerAt⟩ := spelled.operand found member
    exact Leaves.stops innerAt leaves
  cases operands with
  | within next visited =>
      obtain ⟨whole, visits, within⟩ := visited
      obtain ⟨later, all⟩ := Script.exists_visits_of_operands found visits follows
      exact .within next ⟨_, Script.visitsAll_singleton.mpr all,
        within.trans (List.prefix_append _ _)⟩
  | @past whole _ split visits further =>
      subst split
      cases further with
      | refl =>
          obtain ⟨later, all⟩ := Script.exists_visits_of_operands found visits follows
          refine .within rfl ⟨_, Script.visitsAll_singleton.mpr all, ?_⟩
          rw [List.append_nil, List.prefix_append_right_inj]
          exact ⟨later, rfl⟩
      | turn first further =>
          cases first with
          | ends ends =>
              have all := Script.Visits.ends found visits (ends expression found)
              exact .past (List.append_cons ..) (Script.visitsAll_singleton.mpr all) further
          | goesOn same goesOn =>
              obtain rfl := Option.some.inj (found.symm.trans same)
              obtain ⟨before, inner, innerAt⟩ := spelled.following found goesOn
              cases Leaves.stops innerAt further with
              | within next visited =>
                  obtain ⟨late, visitsLate, within⟩ := visited
                  have all := Script.Visits.goesOn found visits goesOn
                    (Script.visitsAll_singleton.mp visitsLate)
                  refine .within next ⟨_, Script.visitsAll_singleton.mpr all, ?_⟩
                  rw [List.append_assoc, List.prefix_append_right_inj]
                  exact List.cons_prefix_cons.mpr ⟨rfl, within⟩
              | past split visitsLate last =>
                  have all := Script.Visits.goesOn found visits goesOn
                    (Script.visitsAll_singleton.mp visitsLate)
                  subst split
                  refine .past ?_ (Script.visitsAll_singleton.mpr all) last
                  rw [List.append_assoc, List.cons_append]
termination_by node.index

section

variable {script : Script} {tree : ExpressionTree} {node : ExpressionRef}
  (spelled : tree.At script node) {scope : Option Value} {seen : List ExpressionRef}

include spelled

/-- When nothing is pending any more, the whole expression has been evaluated. -/
theorem Leaves.visits (leaves : Leaves script (scheduled script node scope []) seen []) :
    script.Visits node seen := by
  cases Leaves.stops spelled leaves with
  | within next _ => cases next
  | past split visits further =>
      cases further
      rw [List.append_nil] at split
      subst split
      exact Script.visitsAll_singleton.mp visits

/-- Before that, the node that is next comes next in the order. -/
theorem Leaves.visited {final : List PendingNode}
    (leaves : Leaves script (scheduled script node scope []) seen final) :
    script.Visited [node] (seen ++ (final.head?.map PendingNode.node).toList) := by
  cases Leaves.stops spelled leaves with
  | within next visited =>
      rw [next]
      exact visited
  | @past whole _ split visits further =>
      cases further
      subst split
      refine ⟨whole, visits, ?_⟩
      simp

end

end Evaluation

end ScriptEngine
