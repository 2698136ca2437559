import ScriptEngine.Value.Element
import ScriptEngine.Value.Operation

/-!
# The evaluation

Expressions are evaluated from a list of pending nodes and a list of results. A
node is scheduled behind those of its operands that are always needed, so when
its turn comes their results are on top. Nodes that need an operand only
sometimes schedule it themselves when they are evaluated, and what it gives
stands in for their own result.

Every node is scheduled with an optional scope value. If that is a record, names
are looked up in this record alone; otherwise they are looked up along the scope
chain. The scope is kept beside the result, which is how a call knows the record
that its callee was found in.

The evaluation does not run functions. It asks for a call and goes on when the
result has been put on top of the others.

A comparison that does not come to an end keeps its node forever. The evaluation
says so with an outcome of its own, which is neither a value nor an error.
-/

set_option autoImplicit false

namespace ScriptEngine

/-- The records in which names are looked up, innermost first. New names are
written to the first of them. -/
structure ScopeChain where
  names : RecordRef
  parents : List RecordRef
deriving DecidableEq, Repr

namespace ScopeChain

/-- All records of the chain, innermost first. -/
def toList (chain : ScopeChain) : List RecordRef :=
  chain.names :: chain.parents

/-- The last record of the chain, in which names are looked up last. -/
def outermost (chain : ScopeChain) : RecordRef :=
  chain.parents.getLast?.getD chain.names

end ScopeChain

namespace Expression

/-- The operands that are evaluated before the node itself, in this order. -/
def operands : Expression → List ExpressionRef
  | unary _ operand _ => [operand]
  | binary _ left right _ => [left, right]
  | shortCircuit _ left _ _ => [left]
  | member object _ _ => [object]
  | element object index _ => [object, index]
  | array elements _ => elements
  | call callee arguments _ => callee :: arguments
  | constant .. => []
  | name .. => []
  | silent _ => []
  | scopeNames _ => []

end Expression

/-- A node that waits for its turn, with the scope it is evaluated in. -/
structure PendingNode where
  node : ExpressionRef
  scope : Option Value

/-- A result, with the scope in which its node was evaluated. -/
structure ScopedResult where
  value : Value
  scope : Option Value

/-- A call that an expression asks for: the function, its arguments from left to
right, and the record in which the function was found, if it was found in one. -/
structure CallRequest where
  function : FunctionRef
  arguments : List Value
  receiver : Option Value
  span : Span

/-- The state of an evaluation. -/
structure Evaluation where
  script : Script
  chain : ScopeChain
  /-- The nodes that wait for their turn, next one first. -/
  pending : List PendingNode
  /-- The results that no node has used yet, newest first. -/
  results : List ScopedResult
  names : Option RecordRef
  current : Option ExpressionRef

/-- What evaluating one node came to. -/
inductive NodeOutcome where
  | value (value : Value)
  | delegated
  | call (request : CallRequest)
  | failed (failure : RuntimeError)
  /-- The node compares values forever. -/
  | endless

namespace Evaluation

def new (script : Script) (chain : ScopeChain) : Evaluation :=
  ⟨script, chain, [], [], none, none⟩

def reset (evaluation : Evaluation) : Evaluation :=
  { evaluation with pending := [], results := [], names := none, current := none }

/-- The pending nodes with a node in front, behind the operands that it needs,
their operands, and so on for `depth` levels. -/
def scheduleWithin (script : Script) :
    Nat → ExpressionRef → Option Value → List PendingNode → List PendingNode
  | 0, node, scope, pending => ⟨node, scope⟩ :: pending
  | depth + 1, node, scope, pending =>
      let operands := (script.expression? node).elim [] Expression.operands
      operands.foldr (fun operand later => scheduleWithin script depth operand none later)
        (⟨node, scope⟩ :: pending)

/-- Schedules a node and the operands that it needs. No path from a node to its
operands is longer than the script, unless it goes around in a circle. -/
def schedule (evaluation : Evaluation) (node : ExpressionRef) (scope : Option Value) : Evaluation :=
  { evaluation with
    pending :=
      scheduleWithin evaluation.script evaluation.script.expressions.size node scope
        evaluation.pending }

def scheduleAlone (evaluation : Evaluation) (node : ExpressionRef) (scope : Option Value) :
    Evaluation :=
  { evaluation with pending := ⟨node, scope⟩ :: evaluation.pending }

def pushResult (evaluation : Evaluation) (value : Value) (scope : Option Value) : Evaluation :=
  { evaluation with results := ⟨value, scope⟩ :: evaluation.results }

def popResult? (evaluation : Evaluation) : Option (ScopedResult × Evaluation) :=
  match evaluation.results with
  | [] => none
  | result :: rest => some (result, { evaluation with results := rest })

def hasResult (evaluation : Evaluation) : Bool :=
  evaluation.results.length == 1

/-- The records in which names are looked up at the moment, innermost first. -/
def namespaces (evaluation : Evaluation) : List RecordRef :=
  match evaluation.names with
  | some names => [names]
  | none => evaluation.chain.toList

def lookup (evaluation : Evaluation) (heap : Heap) (name : String) : Except RuntimeCause Value :=
  match evaluation.names with
  | some names =>
      match heap.lookup names name with
      | some value => .ok value
      | none => .error (.undefinedMember name)
  | none =>
      match heap.lookupChain evaluation.chain.toList name with
      | some value => .ok value
      | none => .error (.invalidAccess name)

/-- Takes results for a node that needs `count` of them, oldest first. If there
are too few, all of them are gone. -/
def popResults (evaluation : Evaluation) (count : Nat) :
    Except Evaluation (List ScopedResult × Evaluation) :=
  if count ≤ evaluation.results.length then
    .ok ((evaluation.results.take count).reverse,
      { evaluation with results := evaluation.results.drop count })
  else
    .error { evaluation with results := [] }

def duplicateAll (heap : Heap) : List Value → List Value × Heap
  | [] => ([], heap)
  | value :: rest =>
      let (copy, heap) := heap.duplicate value
      let (copies, heap) := duplicateAll heap rest
      (copy :: copies, heap)

/-- Evaluates a node from the results of its operands, which are given oldest
first and have been taken from the evaluation. -/
def apply (evaluation : Evaluation) (heap : Heap) (node : Expression)
    (operands : List ScopedResult) : NodeOutcome × Evaluation × Heap :=
  let failed (cause : RuntimeCause) (span : Span) : NodeOutcome × Evaluation × Heap :=
    (.failed (.placed cause span), evaluation, heap)
  let answer (result : Except RuntimeCause Value) (span : Span) :
      NodeOutcome × Evaluation × Heap :=
    match result with
    | .ok value => (.value value, evaluation, heap)
    | .error cause => failed cause span
  match node, operands with
  | .constant value _, _ => (.value value, evaluation, heap)
  | .name name span, _ => answer (evaluation.lookup heap name) span
  | .unary operator _ span, [operand] => answer (heap.applyUnary operator operand.value) span
  | .binary operator _ _ span, [left, right] =>
      match heap.applyBinary operator left.value right.value with
      | some (.ok (value, heap)) => (.value value, evaluation, heap)
      | some (.error cause) => failed cause span
      | none => (.endless, evaluation, heap)
  | .shortCircuit operator _ right _, [left] =>
      let decided :=
        match operator with
        | .and => !heap.isTruthy left.value
        | .or => heap.isTruthy left.value
      if decided then (.value left.value, evaluation, heap)
      else (.delegated, evaluation.schedule right none, heap)
  | .member _ member span, [object] =>
      match object.value.recordRef? with
      | some _ => (.delegated, evaluation.schedule member (some object.value), heap)
      | none => failed (.nonRecord object.value) span
  | .element _ _ span, [object, index] => answer (heap.element object.value index.value) span
  | .array _ _, elements =>
      let (items, heap) := duplicateAll heap (elements.map ScopedResult.value)
      let (array, heap) := heap.newArray items.toArray
      (.value (.array array), evaluation, heap)
  | .call _ _ span, callee :: arguments =>
      match callee.value with
      | .function function =>
          (.call ⟨function, arguments.map ScopedResult.value, callee.scope, span⟩,
            evaluation, heap)
      | other => failed (.invalidCallee other) span
  | .scopeNames _, _ =>
      match evaluation.names with
      | some names =>
          let (array, heap) :=
            heap.newArray ((heap.record names).names.map Value.text).toArray
          (.value (.array array), evaluation, heap)
      | none => (.value .none, evaluation, heap)
  | _, _ => (.delegated, evaluation, heap)

/-- Evaluates a node, taking the results of its operands. -/
def evaluateNode (evaluation : Evaluation) (heap : Heap) (node : Expression) :
    NodeOutcome × Evaluation × Heap :=
  match evaluation.popResults node.operands.length with
  | .ok (operands, evaluation) => evaluation.apply heap node operands
  | .error evaluation => (.failed (.unplaced (.unbalancedResults 0)), evaluation, heap)

def begin (evaluation : Evaluation) (expression : ExpressionRef) : Evaluation :=
  evaluation.reset.schedule expression none

/-- What one turn of an evaluation came to. A call is asked for together with
the scope in which its node stands, to be kept beside the call's result. -/
inductive Turn where
  | working
  | call (request : CallRequest) (scope : Option Value)
  | finished (value : Value)
  | failed (failure : RuntimeError)
  /-- The turn goes on forever. -/
  | endless

/-- Evaluates the next pending node. When none is left there must be exactly one
result, which is the value of the expression. -/
def advance (evaluation : Evaluation) (heap : Heap) : Turn × Evaluation × Heap :=
  match evaluation.pending with
  | [] =>
      let rested := { evaluation with names := none, current := none }
      match rested.results with
      | [result] => (.finished result.value, { rested with results := [] }, heap)
      | results =>
          (.failed (.unplaced (.unbalancedResults results.length)), rested.reset, heap)
  | ⟨node, scope⟩ :: pending =>
      let evaluation :=
        { evaluation with
          pending, names := scope.bind Value.recordRef?, current := some node }
      match evaluation.script.expression? node with
      | none => (.working, evaluation, heap)
      | some expression =>
          let (outcome, evaluation, heap) := evaluation.evaluateNode heap expression
          match outcome with
          | .value value => (.working, evaluation.pushResult value scope, heap)
          | .delegated => (.working, evaluation, heap)
          | .call request => (.call request scope, evaluation, heap)
          | .failed failure => (.failed failure, evaluation, heap)
          | .endless => (.endless, evaluation, heap)

end Evaluation

end ScriptEngine
