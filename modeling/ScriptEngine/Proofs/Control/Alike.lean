import ScriptEngine.Proofs.Control.Scope
import ScriptEngine.Proofs.Value.Alike

/-!
# Evaluations and contexts that are alike

Over heaps that are alike, two evaluations of the same expression with results that are alike
take the same turns: they come to values that are alike, ask for the same calls, or fail
alike. Contexts that are alike stand on the same statements, and every jump leaves them so.
-/

set_option autoImplicit false

namespace ScriptEngine

variable {pairing : Pairing} {heap₁ heap₂ : Heap}

/-!
## Evaluations
-/

/-- Both scopes are missing, or they are alike. -/
abbrev ScopeAlike (pairing : Pairing) : Option Value → Option Value → Prop :=
  Option.Rel (Value.Alike pairing)

structure PendingNode.Alike (pairing : Pairing) (waiting₁ waiting₂ : PendingNode) : Prop where
  node : waiting₁.node = waiting₂.node
  scope : ScopeAlike pairing waiting₁.scope waiting₂.scope

structure ScopedResult.Alike (pairing : Pairing) (result₁ result₂ : ScopedResult) : Prop where
  value : result₁.value.Alike pairing result₂.value
  scope : ScopeAlike pairing result₁.scope result₂.scope

/-- The chains consist of records that stand for each other. -/
structure ScopeChain.Alike (pairing : Pairing) (chain₁ chain₂ : ScopeChain) : Prop where
  names : pairing.records chain₁.names chain₂.names
  parents : List.Forall₂ pairing.records chain₁.parents chain₂.parents

structure CallRequest.Alike (pairing : Pairing) (request₁ request₂ : CallRequest) : Prop where
  function : pairing.functions request₁.function request₂.function
  arguments : List.Forall₂ (Value.Alike pairing) request₁.arguments request₂.arguments
  receiver : ScopeAlike pairing request₁.receiver request₂.receiver
  span : request₁.span = request₂.span

/-- The evaluations are of the same script, whose constants refer to no object, and wait for
the same nodes. -/
structure Evaluation.Alike (pairing : Pairing) (evaluation₁ evaluation₂ : Evaluation) :
    Prop where
  script : evaluation₁.script = evaluation₂.script
  plain : evaluation₁.script.Plain
  chain : evaluation₁.chain.Alike pairing evaluation₂.chain
  pending : List.Forall₂ (PendingNode.Alike pairing) evaluation₁.pending evaluation₂.pending
  results : List.Forall₂ (ScopedResult.Alike pairing) evaluation₁.results evaluation₂.results
  names : Option.Rel pairing.records evaluation₁.names evaluation₂.names
  current : evaluation₁.current = evaluation₂.current

inductive NodeOutcome.Alike (pairing : Pairing) : NodeOutcome → NodeOutcome → Prop where
  | value {value₁ value₂ : Value} (value : value₁.Alike pairing value₂) :
      Alike pairing (.value value₁) (.value value₂)
  | delegated : Alike pairing .delegated .delegated
  | call {request₁ request₂ : CallRequest} (request : request₁.Alike pairing request₂) :
      Alike pairing (.call request₁) (.call request₂)
  | failed {failure₁ failure₂ : RuntimeError} (failure : failure₁.Alike pairing failure₂) :
      Alike pairing (.failed failure₁) (.failed failure₂)
  | endless : Alike pairing .endless .endless

inductive Evaluation.Turn.Alike (pairing : Pairing) :
    Evaluation.Turn → Evaluation.Turn → Prop where
  | working : Alike pairing .working .working
  | call {request₁ request₂ : CallRequest} {scope₁ scope₂ : Option Value}
      (request : request₁.Alike pairing request₂) (scope : ScopeAlike pairing scope₁ scope₂) :
      Alike pairing (.call request₁ scope₁) (.call request₂ scope₂)
  | finished {value₁ value₂ : Value} (value : value₁.Alike pairing value₂) :
      Alike pairing (.finished value₁) (.finished value₂)
  | failed {failure₁ failure₂ : RuntimeError} (failure : failure₁.Alike pairing failure₂) :
      Alike pairing (.failed failure₁) (.failed failure₂)
  | endless : Alike pairing .endless .endless

/-- What an evaluation came to, and the evaluation and the heap that it left. -/
def Evaluation.LeftAlike {α : Type} (pairing : Pairing) (related : α → α → Prop)
    (left₁ left₂ : α × Evaluation × Heap) : Prop :=
  related left₁.1 left₂.1 ∧ left₁.2.1.Alike pairing left₂.2.1 ∧ left₁.2.2.Alike pairing left₂.2.2

namespace ScopeChain.Alike

variable {chain₁ chain₂ : ScopeChain} (chain : chain₁.Alike pairing chain₂)

include chain

theorem toList : List.Forall₂ pairing.records chain₁.toList chain₂.toList :=
  .cons chain.names chain.parents

theorem outermost : pairing.records chain₁.outermost chain₂.outermost := by
  obtain ⟨names₁, parents₁⟩ := chain₁
  obtain ⟨names₂, parents₂⟩ := chain₂
  obtain ⟨names, parents⟩ := chain
  unfold ScopeChain.outermost
  dsimp only at names parents ⊢
  induction parents generalizing names₁ names₂ with
  | nil => exact names
  | cons parent _ ih =>
      simp only [List.getLast?_cons, Option.getD_some]
      exact ih _ _ parent

end ScopeChain.Alike

theorem ScopedResult.alike_values {results₁ results₂ : List ScopedResult}
    (results : List.Forall₂ (ScopedResult.Alike pairing) results₁ results₂) :
    List.Forall₂ (Value.Alike pairing) (results₁.map ScopedResult.value)
      (results₂.map ScopedResult.value) := by
  rw [List.forall₂_map_left_iff, List.forall₂_map_right_iff]
  exact results.imp fun _ _ result => result.value

namespace Evaluation

theorem alike_scheduleWithin (script : Script) (depth : Nat) (node : ExpressionRef)
    {scope₁ scope₂ : Option Value} (scope : ScopeAlike pairing scope₁ scope₂)
    {pending₁ pending₂ : List PendingNode}
    (pending : List.Forall₂ (PendingNode.Alike pairing) pending₁ pending₂) :
    List.Forall₂ (PendingNode.Alike pairing) (scheduleWithin script depth node scope₁ pending₁)
      (scheduleWithin script depth node scope₂ pending₂) := by
  induction depth generalizing node scope₁ scope₂ pending₁ pending₂ with
  | zero => exact .cons ⟨rfl, scope⟩ pending
  | succ depth ih =>
      simp only [scheduleWithin]
      generalize (script.expression? node).elim [] Expression.operands = operands
      induction operands with
      | nil => exact .cons ⟨rfl, scope⟩ pending
      | cons operand rest restIH => exact ih operand .none restIH

theorem alike_duplicateAll (heap : heap₁.Alike pairing heap₂) {values₁ values₂ : List Value}
    (values : List.Forall₂ (Value.Alike pairing) values₁ values₂) :
    Left pairing (List.Forall₂ (Value.Alike pairing)) (duplicateAll heap₁ values₁)
      (duplicateAll heap₂ values₂) := by
  induction values generalizing heap₁ heap₂ with
  | nil => exact ⟨.nil, heap⟩
  | cons value _ ih =>
      obtain ⟨copy, grown⟩ := heap.duplicate value
      obtain ⟨copies, last⟩ := ih grown
      exact ⟨.cons copy copies, last⟩

/-- What evaluating a node comes to whose value is computed without making an object. -/
def answer (evaluation : Evaluation) (heap : Heap) (span : Span) :
    Except RuntimeCause Value → NodeOutcome × Evaluation × Heap
  | .ok value => (.value value, evaluation, heap)
  | .error cause => (.failed (.placed cause span), evaluation, heap)

theorem alike_new {script : Script} (plain : script.Plain) {chain₁ chain₂ : ScopeChain}
    (chain : chain₁.Alike pairing chain₂) :
    (Evaluation.new script chain₁).Alike pairing (Evaluation.new script chain₂) :=
  ⟨rfl, plain, chain, .nil, .nil, .none, rfl⟩

namespace Alike

variable {evaluation₁ evaluation₂ : Evaluation}
  (alike : evaluation₁.Alike pairing evaluation₂)

include alike

theorem reset : evaluation₁.reset.Alike pairing evaluation₂.reset :=
  ⟨alike.script, alike.plain, alike.chain, .nil, .nil, .none, rfl⟩

theorem schedule (node : ExpressionRef) {scope₁ scope₂ : Option Value}
    (scope : ScopeAlike pairing scope₁ scope₂) :
    (evaluation₁.schedule node scope₁).Alike pairing (evaluation₂.schedule node scope₂) := by
  refine { alike with pending := ?_ }
  unfold Evaluation.schedule
  rw [← alike.script]
  exact alike_scheduleWithin _ _ node scope alike.pending

theorem begin (node : ExpressionRef) :
    (evaluation₁.begin node).Alike pairing (evaluation₂.begin node) :=
  alike.reset.schedule node .none

theorem pushResult {value₁ value₂ : Value} (value : value₁.Alike pairing value₂)
    {scope₁ scope₂ : Option Value} (scope : ScopeAlike pairing scope₁ scope₂) :
    (evaluation₁.pushResult value₁ scope₁).Alike pairing
      (evaluation₂.pushResult value₂ scope₂) :=
  { alike with results := .cons ⟨value, scope⟩ alike.results }

variable (heap : heap₁.Alike pairing heap₂)

include heap

theorem lookup (name : String) :
    Agree pairing (Value.Alike pairing) (evaluation₁.lookup heap₁ name)
      (evaluation₂.lookup heap₂ name) := by
  have names := alike.names
  unfold Evaluation.lookup
  generalize evaluation₁.names = names₁ at names
  generalize evaluation₂.names = names₂ at names
  cases names with
  | some paired => exact heap.member paired name
  | none =>
      have found := heap.lookupChain alike.chain.toList name
      dsimp only
      generalize heap₁.lookupChain _ name = found₁ at found
      generalize heap₂.lookupChain _ name = found₂ at found
      cases found with
      | none => exact .error (.invalidAccess name)
      | some value => exact .ok value

theorem answer {answer₁ answer₂ : Except RuntimeCause Value}
    (agree : Agree pairing (Value.Alike pairing) answer₁ answer₂) (span : Span) :
    LeftAlike pairing (NodeOutcome.Alike pairing) (evaluation₁.answer heap₁ span answer₁)
      (evaluation₂.answer heap₂ span answer₂) := by
  cases agree with
  | ok value => exact ⟨.value value, alike, heap⟩
  | error causes => exact ⟨.failed (.placed causes span), alike, heap⟩

/-- Evaluating a node that has got its operands comes to what is alike. With a wrong number of
operands it comes to nothing. -/
theorem apply {node : Expression} (plain : node.Plain) {operands₁ operands₂ : List ScopedResult}
    (operands : List.Forall₂ (ScopedResult.Alike pairing) operands₁ operands₂) :
    LeftAlike pairing (NodeOutcome.Alike pairing) (evaluation₁.apply heap₁ node operands₁)
      (evaluation₂.apply heap₂ node operands₂) := by
  have nothing : LeftAlike pairing (NodeOutcome.Alike pairing)
      (.delegated, evaluation₁, heap₁) (.delegated, evaluation₂, heap₂) :=
    ⟨.delegated, alike, heap⟩
  cases node with
  | constant value span => exact ⟨.value plain.alike, alike, heap⟩
  | name name span => exact alike.answer heap (alike.lookup heap name) span
  | silent span =>
      cases operands with
      | nil | cons => exact nothing
  | unary operator node span =>
      cases operands with
      | nil => exact nothing
      | cons operand more =>
          cases more with
          | nil => exact alike.answer heap (heap.applyUnary operator operand.value) span
          | cons => exact nothing
  | binary operator first second span =>
      rcases operands with _ | ⟨left, _ | ⟨right, _ | ⟨_, _⟩⟩⟩
      · exact nothing
      · exact nothing
      · have agree := heap.applyBinary operator left.value right.value
        unfold Evaluation.apply
        dsimp only
        generalize heap₁.applyBinary operator _ _ = answer₁ at agree
        generalize heap₂.applyBinary operator _ _ = answer₂ at agree
        cases agree with
        | none => exact ⟨.endless, alike, heap⟩
        | some answers =>
            cases answers with
            | ok results => exact ⟨.value results.1, alike, results.2⟩
            | error causes => exact ⟨.failed (.placed causes span), alike, heap⟩
      · exact nothing
  | shortCircuit operator first second span =>
      rcases operands with _ | @⟨left₁, left₂, _, _, left, _ | ⟨_, _⟩⟩
      · exact nothing
      · have delegated := @schedule pairing _ _ alike second none none .none
        have decided (holds : Bool) : LeftAlike pairing (NodeOutcome.Alike pairing)
            (if holds then (.value left₁.value, evaluation₁, heap₁)
            else (.delegated, evaluation₁.schedule second none, heap₁))
            (if holds then (.value left₂.value, evaluation₂, heap₂)
            else (.delegated, evaluation₂.schedule second none, heap₂)) := by
          cases holds with
          | true => exact ⟨.value left.value, alike, heap⟩
          | false => exact ⟨.delegated, delegated, heap⟩
        unfold Evaluation.apply
        dsimp only
        rw [heap.isTruthy left.value]
        cases operator with
        | and => exact decided _
        | or => exact decided _
      · exact nothing
  | member object member span =>
      rcases operands with _ | ⟨object, _ | ⟨_, _⟩⟩
      · exact nothing
      · have within := object.value
        have references := within.recordRef?
        unfold Evaluation.apply
        dsimp only
        generalize Value.recordRef? _ = reference₁ at references
        generalize Value.recordRef? _ = reference₂ at references
        cases references with
        | some _ => exact ⟨.delegated, alike.schedule member (.some within), heap⟩
        | none => exact ⟨.failed (.placed (.nonRecord within) span), alike, heap⟩
      · exact nothing
  | element object index span =>
      rcases operands with _ | ⟨object, _ | ⟨index, _ | ⟨_, _⟩⟩⟩
      · exact nothing
      · exact nothing
      · exact alike.answer heap (heap.element object.value index.value) span
      · exact nothing
  | array elements span =>
      obtain ⟨copies, grown⟩ := alike_duplicateAll heap (ScopedResult.alike_values operands)
      obtain ⟨made, last⟩ := grown.newList copies
      exact ⟨.value (.array made), alike, last⟩
  | call callee arguments span =>
      cases operands with
      | nil => exact nothing
      | cons callee rest =>
          rename_i first₁ first₂ rest₁ rest₂
          have arguments := ScopedResult.alike_values rest
          obtain ⟨value, scope⟩ := callee
          obtain ⟨value₁, scope₁⟩ := first₁
          obtain ⟨value₂, scope₂⟩ := first₂
          dsimp only at value scope
          have refused : LeftAlike pairing (NodeOutcome.Alike pairing)
              (.failed (.placed (.invalidCallee value₁) span), evaluation₁, heap₁)
              (.failed (.placed (.invalidCallee value₂) span), evaluation₂, heap₂) :=
            ⟨.failed (.placed (.invalidCallee value) span), alike, heap⟩
          cases value with
          | function paired => exact ⟨.call ⟨paired, arguments, scope, rfl⟩, alike, heap⟩
          | none | number | text | bool | array | record => exact refused
  | scopeNames span =>
      have names := alike.names
      unfold Evaluation.apply
      dsimp only
      generalize evaluation₁.names = names₁ at names
      generalize evaluation₂.names = names₂ at names
      cases names with
      | none => exact ⟨.value .none, alike, heap⟩
      | some paired =>
          dsimp only
          rw [(heap.members _ _ paired).names]
          have texts (name : String) : (Value.text name).Plain := trivial
          obtain ⟨made, grown⟩ := heap.newPlain (heap₂.record _).names texts
          exact ⟨.value (.array made), alike, grown⟩

theorem evaluateNode {node : Expression} (plain : node.Plain) :
    LeftAlike pairing (NodeOutcome.Alike pairing) (evaluation₁.evaluateNode heap₁ node)
      (evaluation₂.evaluateNode heap₂ node) := by
  have counts := alike.results.length_eq
  unfold Evaluation.evaluateNode Evaluation.popResults
  rw [counts]
  split
  · next operands₁ left₁ found₁ =>
      split at found₁
      · next enough =>
          cases found₁
          rw [if_pos enough]
          have rest : Evaluation.Alike pairing
              { evaluation₁ with results := evaluation₁.results.drop node.operands.length }
              { evaluation₂ with results := evaluation₂.results.drop node.operands.length } :=
            { alike with results := List.forall₂_drop _ alike.results }
          exact rest.apply heap plain
            (List.rel_reverse (List.forall₂_take node.operands.length alike.results))
      · cases found₁
  · next left₁ found₁ =>
      split at found₁
      · cases found₁
      · next few =>
          cases found₁
          rw [if_neg few]
          exact ⟨.failed ⟨.unbalancedResults 0, rfl⟩, { alike with results := .nil }, heap⟩

theorem advance :
    LeftAlike pairing (Turn.Alike pairing) (evaluation₁.advance heap₁)
      (evaluation₂.advance heap₂) := by
  obtain ⟨script, chain₁, pending₁, results₁, names₁, current₁⟩ := evaluation₁
  obtain ⟨_, chain₂, pending₂, results₂, names₂, current₂⟩ := evaluation₂
  obtain ⟨rfl, plain, chain, pending, results, names, rfl⟩ := alike
  dsimp only at plain chain pending results names
  unfold Evaluation.advance
  cases pending with
  | nil =>
      have rested : Evaluation.Alike pairing ⟨script, chain₁, [], results₁, none, none⟩
          ⟨script, chain₂, [], results₂, none, none⟩ :=
        ⟨rfl, plain, chain, .nil, results, .none, rfl⟩
      rcases results with _ | ⟨result, _ | ⟨next, more⟩⟩
      · exact ⟨.failed ⟨.unbalancedResults 0, rfl⟩, rested.reset, heap⟩
      · exact ⟨.finished result.value, ⟨rfl, plain, chain, .nil, .nil, .none, rfl⟩, heap⟩
      · have counts := more.length_eq
        dsimp only
        simp only [List.length_cons, counts]
        exact ⟨.failed ⟨.unbalancedResults _, rfl⟩, rested.reset, heap⟩
  | @cons waiting₁ waiting₂ later₁ later₂ waiting later =>
      obtain ⟨node, scope₁⟩ := waiting₁
      obtain ⟨_, scope₂⟩ := waiting₂
      obtain ⟨rfl, scope⟩ := waiting
      dsimp only at scope ⊢
      have within : Option.Rel pairing.records (scope₁.bind Value.recordRef?)
          (scope₂.bind Value.recordRef?) := by
        cases scope with
        | none => exact .none
        | some value => exact value.recordRef?
      have begun : Evaluation.Alike pairing
          ⟨script, chain₁, later₁, results₁, scope₁.bind Value.recordRef?, some node⟩
          ⟨script, chain₂, later₂, results₂, scope₂.bind Value.recordRef?, some node⟩ :=
        ⟨rfl, plain, chain, later, results, within, rfl⟩
      cases found : script.expression? node with
      | none => exact ⟨.working, begun, heap⟩
      | some expression =>
          have evaluated := begun.evaluateNode heap
            (plain expression (Array.mem_of_getElem? found))
          dsimp only
          generalize Evaluation.evaluateNode _ heap₁ expression = answer₁ at evaluated
          generalize Evaluation.evaluateNode _ heap₂ expression = answer₂ at evaluated
          obtain ⟨outcome₁, after₁, grown₁⟩ := answer₁
          obtain ⟨outcome₂, after₂, grown₂⟩ := answer₂
          obtain ⟨outcome, after, grown⟩ := evaluated
          dsimp only at outcome after grown
          cases outcome with
          | value value => exact ⟨.working, after.pushResult value scope, grown⟩
          | delegated => exact ⟨.working, after, grown⟩
          | call request => exact ⟨.call request scope, after, grown⟩
          | failed failure => exact ⟨.failed failure, after, grown⟩
          | endless => exact ⟨.endless, after, grown⟩

end Alike

end Evaluation

/-!
## Contexts
-/

structure Iteration.Alike (pairing : Pairing) (iteration₁ iteration₂ : Iteration) : Prop where
  source : iteration₁.source.Alike pairing iteration₂.source
  position : iteration₁.position = iteration₂.position

/-- The frames stand on the same statement, and have cursors over values that are alike. -/
structure Frame.Alike (pairing : Pairing) (frame₁ frame₂ : Frame) : Prop where
  current : frame₁.current = frame₂.current
  fallback : frame₁.fallback = frame₂.fallback
  continueTarget : frame₁.continueTarget = frame₂.continueTarget
  breakTarget : frame₁.breakTarget = frame₂.breakTarget
  iteration : Option.Rel (Iteration.Alike pairing) frame₁.iteration frame₂.iteration

structure Context.Alike (pairing : Pairing) (context₁ context₂ : Context) : Prop where
  kind : context₁.kind = context₂.kind
  evaluation : context₁.evaluation.Alike pairing context₂.evaluation
  frames : List.Forall₂ (Frame.Alike pairing) context₁.frames context₂.frames
  ownsNames : context₁.ownsNames = context₂.ownsNames
  returned : ScopeAlike pairing context₁.returnValue context₂.returnValue

theorem Iteration.alike_start {value₁ value₂ : Value} (value : value₁.Alike pairing value₂) :
    Agree pairing (Iteration.Alike pairing) (Iteration.start value₁) (Iteration.start value₂) := by
  have refused := Agree.refused (Iteration.Alike pairing) (.nonIterable value)
  have started : Agree pairing (Iteration.Alike pairing) (.ok ⟨value₁, 0⟩) (.ok ⟨value₂, 0⟩) :=
    .ok ⟨value, rfl⟩
  cases value with
  | text | array | record => exact started
  | none | number | bool | function => exact refused

theorem Iteration.Alike.next {iteration₁ iteration₂ : Iteration}
    (alike : iteration₁.Alike pairing iteration₂) (heap : heap₁.Alike pairing heap₂) :
    Option.Rel (fun item₁ item₂ => item₁.1.Alike pairing item₂.1 ∧ item₁.2.Alike pairing item₂.2)
      (iteration₁.next heap₁) (iteration₂.next heap₂) := by
  obtain ⟨source₁, position⟩ := iteration₁
  obtain ⟨source₂, _⟩ := iteration₂
  obtain ⟨source, rfl⟩ := alike
  have item := heap.itemAt source position
  unfold Iteration.next
  dsimp only
  generalize Iteration.itemAt heap₁ source₁ position = item₁ at item
  generalize Iteration.itemAt heap₂ source₂ position = item₂ at item
  cases item with
  | none => exact .none
  | some value => exact .some ⟨value, source, rfl⟩

namespace Frame

variable {frames₁ frames₂ : List Frame}
  (frames : List.Forall₂ (Frame.Alike pairing) frames₁ frames₂)

include frames

theorem alike_leaveFinished (next : Option StatementRef) :
    (leaveFinished next frames₁).1 = (leaveFinished next frames₂).1 ∧
      List.Forall₂ (Frame.Alike pairing) (leaveFinished next frames₁).2
        (leaveFinished next frames₂).2 := by
  induction frames generalizing next with
  | nil => cases next <;> exact ⟨rfl, .nil⟩
  | cons frame rest ih =>
      cases next with
      | some statement => exact ⟨rfl, .cons frame rest⟩
      | none =>
          simp only [leaveFinished, frame.fallback]
          exact ih _

theorem alike_findContinue :
    Option.Rel (fun found₁ found₂ => found₁.1 = found₂.1 ∧
        List.Forall₂ (Frame.Alike pairing) found₁.2 found₂.2)
      (findContinue frames₁) (findContinue frames₂) := by
  induction frames with
  | nil => exact .none
  | cons frame rest ih =>
      simp only [findContinue, frame.continueTarget]
      split
      · exact .some ⟨rfl, rest⟩
      · exact ih

theorem alike_leaveBreakable (target : Option StatementRef) (count : Nat) :
    (leaveBreakable target count frames₁).1 = (leaveBreakable target count frames₂).1 ∧
      (leaveBreakable target count frames₁).2.1 = (leaveBreakable target count frames₂).2.1 ∧
      List.Forall₂ (Frame.Alike pairing) (leaveBreakable target count frames₁).2.2
        (leaveBreakable target count frames₂).2.2 := by
  induction frames generalizing target count with
  | nil => cases count <;> exact ⟨rfl, rfl, .nil⟩
  | cons frame rest ih =>
      cases count with
      | zero => exact ⟨rfl, rfl, .cons frame rest⟩
      | succ count =>
          simp only [leaveBreakable, frame.breakTarget]
          split
          · exact ih _ _
          · exact ih _ _

end Frame

namespace Context

theorem alike_new (kind : ContextKind) {script : Script} (plain : script.Plain)
    {chain₁ chain₂ : ScopeChain} (chain : chain₁.Alike pairing chain₂) (ownsNames : Bool) :
    (Context.new kind script chain₁ ownsNames).Alike pairing
      (Context.new kind script chain₂ ownsNames) :=
  ⟨rfl, Evaluation.alike_new plain chain, .nil, rfl, .none⟩

section

variable {script : Script} (plain : script.Plain)

include plain

theorem alike_base {globals₁ globals₂ : RecordRef} (globals : pairing.records globals₁ globals₂) :
    (Context.base script globals₁).Alike pairing (Context.base script globals₂) :=
  alike_new .base plain ⟨globals, .nil⟩ false

theorem alike_functionCall {locals₁ locals₂ globals₁ globals₂ : RecordRef}
    (locals : pairing.records locals₁ locals₂) (globals : pairing.records globals₁ globals₂) :
    (Context.functionCall script locals₁ globals₁).Alike pairing
      (Context.functionCall script locals₂ globals₂) :=
  alike_new .function plain ⟨locals, .cons globals .nil⟩ true

theorem alike_block {members₁ members₂ : RecordRef} {parents₁ parents₂ : List RecordRef}
    (members : pairing.records members₁ members₂)
    (parents : List.Forall₂ pairing.records parents₁ parents₂) :
    (Context.block script members₁ parents₁).Alike pairing
      (Context.block script members₂ parents₂) :=
  alike_new .block plain ⟨members, parents⟩ true

end

namespace Alike

variable {context₁ context₂ : Context} (alike : context₁.Alike pairing context₂)

include alike

theorem script : context₁.script = context₂.script :=
  alike.evaluation.script

theorem plain : context₁.script.Plain :=
  alike.evaluation.plain

theorem names : pairing.records context₁.names context₂.names :=
  alike.evaluation.chain.names

theorem visible : List.Forall₂ pairing.records context₁.visible context₂.visible :=
  alike.evaluation.chain.toList

theorem current : context₁.current = context₂.current := by
  have frames := alike.frames
  unfold Context.current
  generalize context₁.frames = frames₁ at frames ⊢
  generalize context₂.frames = frames₂ at frames ⊢
  cases frames with
  | nil => rfl
  | cons frame _ => exact frame.current

theorem iteration :
    Option.Rel (Iteration.Alike pairing) context₁.iteration context₂.iteration := by
  have frames := alike.frames
  unfold Context.iteration
  generalize context₁.frames = frames₁ at frames ⊢
  generalize context₂.frames = frames₂ at frames ⊢
  cases frames with
  | nil => exact .none
  | cons frame _ => exact frame.iteration

theorem withFrames {frames₁ frames₂ : List Frame}
    (frames : List.Forall₂ (Frame.Alike pairing) frames₁ frames₂) :
    Context.Alike pairing { context₁ with frames := frames₁ }
      { context₂ with frames := frames₂ } :=
  { alike with frames }

theorem withEvaluation {evaluation₁ evaluation₂ : Evaluation}
    (evaluation : evaluation₁.Alike pairing evaluation₂) :
    Context.Alike pairing { context₁ with evaluation := evaluation₁ }
      { context₂ with evaluation := evaluation₂ } :=
  { alike with evaluation }

theorem setIteration {iteration₁ iteration₂ : Option Iteration}
    (iteration : Option.Rel (Iteration.Alike pairing) iteration₁ iteration₂) :
    (context₁.setIteration iteration₁).Alike pairing (context₂.setIteration iteration₂) := by
  obtain ⟨kind, evaluation₁, frames₁, ownsNames, returned₁⟩ := context₁
  obtain ⟨_, evaluation₂, frames₂, _, returned₂⟩ := context₂
  obtain ⟨rfl, evaluation, frames, rfl, returned⟩ := alike
  cases frames with
  | nil => exact ⟨rfl, evaluation, .nil, rfl, returned⟩
  | cons frame rest => exact ⟨rfl, evaluation, .cons { frame with iteration } rest, rfl, returned⟩

theorem resumeAt (statement : Option StatementRef) :
    (context₁.resumeAt statement).Alike pairing (context₂.resumeAt statement) := by
  obtain ⟨kind, evaluation₁, frames₁, ownsNames, returned₁⟩ := context₁
  obtain ⟨_, evaluation₂, frames₂, _, returned₂⟩ := context₂
  obtain ⟨rfl, evaluation, frames, rfl, returned⟩ := alike
  cases frames with
  | nil => exact ⟨rfl, evaluation, .nil, rfl, returned⟩
  | cons frame rest =>
      exact ⟨rfl, evaluation.reset, .cons { frame with current := rfl } rest, rfl, returned⟩

theorem proceed : context₁.proceed.Alike pairing context₂.proceed := by
  unfold Context.proceed
  rw [alike.current, alike.script]
  dsimp only
  obtain ⟨next, frames⟩ :=
    Frame.alike_leaveFinished alike.frames (context₂.current.bind context₂.script.next)
  rw [next]
  exact (alike.withFrames frames).resumeAt _

theorem enter (statement fallback continueTarget breakTarget : Option StatementRef) :
    (context₁.enter statement fallback continueTarget breakTarget).Alike pairing
      (context₂.enter statement fallback continueTarget breakTarget) := by
  have frame : Frame.Alike pairing ⟨statement, fallback, continueTarget, breakTarget, none⟩
      ⟨statement, fallback, continueTarget, breakTarget, none⟩ := ⟨rfl, rfl, rfl, rfl, .none⟩
  have opened := (alike.withFrames (.cons frame alike.frames)).withEvaluation
    alike.evaluation.reset
  unfold Context.enter
  dsimp only
  split
  · exact opened.proceed
  · exact opened

theorem enterLoopBody (loop : StatementRef) (body : Option StatementRef) :
    (context₁.enterLoopBody loop body).Alike pairing (context₂.enterLoopBody loop body) :=
  alike.enter body (some loop) (some loop) (some loop)

theorem nextLoopPass :
    context₁.nextLoopPass.1 = context₂.nextLoopPass.1 ∧
      context₁.nextLoopPass.2.Alike pairing context₂.nextLoopPass.2 := by
  have found := Frame.alike_findContinue alike.frames
  unfold Context.nextLoopPass
  generalize Frame.findContinue context₁.frames = found₁ at found
  generalize Frame.findContinue context₂.frames = found₂ at found
  cases found with
  | none => exact ⟨rfl, alike.withFrames .nil⟩
  | @some found₁ found₂ found =>
      obtain ⟨target, frames₁⟩ := found₁
      obtain ⟨_, frames₂⟩ := found₂
      obtain ⟨rfl, frames⟩ := found
      exact ⟨rfl, (alike.withFrames frames).resumeAt _⟩

theorem breakOut (count : Nat) :
    (context₁.breakOut count).1 = (context₂.breakOut count).1 ∧
      (context₁.breakOut count).2.Alike pairing (context₂.breakOut count).2 := by
  unfold Context.breakOut
  split
  · exact ⟨rfl, alike⟩
  · have left := Frame.alike_leaveBreakable alike.frames none count
    generalize Frame.leaveBreakable none count context₁.frames = left₁ at left
    generalize Frame.leaveBreakable none count context₂.frames = left₂ at left
    obtain ⟨missing, target, frames₁⟩ := left₁
    obtain ⟨_, _, frames₂⟩ := left₂
    obtain ⟨rfl, rfl, frames⟩ := left
    have rest := alike.withFrames frames
    dsimp only
    cases target with
    | none => exact ⟨rfl, rest⟩
    | some loop =>
        dsimp only
        split
        · exact ⟨rfl, ((rest.resumeAt (some loop)).setIteration .none).proceed⟩
        · exact ⟨rfl, rest⟩

theorem returnWith {value₁ value₂ : Value} (value : value₁.Alike pairing value₂) :
    (context₁.returnWith value₁).Alike pairing (context₂.returnWith value₂) :=
  ⟨alike.kind, alike.evaluation.reset, .nil, alike.ownsNames, .some value⟩

theorem release (heap : heap₁.Alike pairing heap₂) :
    (context₁.release heap₁).Alike pairing (context₂.release heap₂) := by
  unfold Context.release
  rw [alike.ownsNames]
  split
  · exact heap.clearRecord alike.names
  · exact heap

end Alike

end Context

end ScriptEngine
