import ScriptEngine.Proofs.Script.Tree
import ScriptEngine.Session.Host

/-!
# Evaluating trees recursively

What an expression means, said by recursion over its tree: operands from left to
right, each in the scope of the whole expression, and a value together with the
record that it was looked up in. The meaning of a call is left open.
-/

set_option autoImplicit false

namespace ScriptEngine

/-- Something that is done with a session. It gives a value, fails or never comes
to an end; a bound that was reached stands for the last. -/
def Effect (α : Type) : Type :=
  Session → Answer α × Session

namespace Effect

variable {α β : Type}

protected def pure (value : α) : Effect α := fun session =>
  (.value value, session)

/-- Does the one and then, if it gave a value, the other. -/
protected def bind (effect : Effect α) (following : α → Effect β) : Effect β := fun session =>
  match effect session with
  | (.value value, session) => following value session
  | (.failed failure, session) => (.failed failure, session)
  | (.unfinished, session) => (.unfinished, session)

instance : Monad Effect where
  pure := Effect.pure
  bind := Effect.bind

protected theorem id_map (effect : Effect α) : id <$> effect = effect := by
  funext session
  simp only [Functor.map, Effect.bind, Function.comp, id]
  generalize effect session = answer
  obtain ⟨answer, after⟩ := answer
  cases answer <;> rfl

protected theorem bind_assoc {γ : Type} (effect : Effect α) (following : α → Effect β)
    (last : β → Effect γ) :
    effect >>= following >>= last = effect >>= fun value => following value >>= last := by
  funext session
  simp only [Bind.bind, Effect.bind]
  generalize effect session = answer
  obtain ⟨answer, after⟩ := answer
  cases answer <;> rfl

instance : LawfulMonad Effect :=
  .mk' Effect Effect.id_map (fun _ _ => rfl) Effect.bind_assoc

/-- Looks at the heap. -/
def fromHeap (read : Heap → α) : Effect α := fun session =>
  (.value (read session.heap), session)

theorem fromHeap_bind {β : Type} (read : Heap → α) (following : α → Effect β)
    (session : Session) :
    (fromHeap read >>= following) session = following (read session.heap) session := rfl

/-- Computes something from the heap, unless that goes on forever, and perhaps
adds an object to it. What goes wrong goes wrong at the given place. -/
def compute (span : Span) (action : Heap → Option (Except RuntimeCause (α × Heap))) :
    Effect α := fun session =>
  match action session.heap with
  | some (.ok (value, heap)) => (.value value, { session with heap })
  | some (.error cause) => (.failed (.placed cause span), session)
  | none => (.unfinished, session)

/-- Looks something up in the heap and perhaps adds an object to it. -/
def onHeap (span : Span) (action : Heap → Except RuntimeCause (α × Heap)) : Effect α :=
  compute span fun heap => some (action heap)

/-- Fails at a place. -/
def fail (span : Span) (cause : RuntimeCause) : Effect α := fun session =>
  (.failed (.placed cause span), session)

/-- Gives a failure a place unless it has one already. -/
def locatedAt (span : Span) (effect : Effect α) : Effect α := fun session =>
  match effect session with
  | (.failed failure, session) => (.failed (failure.withDefaultSpan span), session)
  | answer => answer

end Effect

/-- Whether the left operand decides what the operator gives. -/
def LogicalOperator.decides (operator : LogicalOperator) (heap : Heap) (left : Value) : Bool :=
  match operator with
  | .and => !heap.isTruthy left
  | .or => heap.isTruthy left

namespace Effect

/-- The value of a name that stands alone. -/
def lookupName (chain : ScopeChain) (name : String) (span : Span) : Effect Value :=
  onHeap span fun heap =>
    match heap.lookupChain chain.toList name with
    | some value => .ok (value, heap)
    | none => .error (.invalidAccess name)

/-- The value of a name behind the value of an object, looked up in this record
alone. -/
def lookupMember (object : Value) (name : String) (nameSpan span : Span) : Effect Value :=
  match object.recordRef? with
  | none => fail span (.nonRecord object)
  | some record =>
      onHeap nameSpan fun heap =>
        match heap.lookup record name with
        | some value => .ok (value, heap)
        | none => .error (.undefinedMember name)

/-- A new array of copies of the values. -/
def makeArray (span : Span) (values : List Value) : Effect Value :=
  onHeap span fun heap =>
    let (items, heap) := Evaluation.duplicateAll heap values
    let (array, heap) := heap.newArray items.toArray
    .ok (.array array, heap)

/-- Calls a value with arguments, and with the record that it was found in. -/
def callValue (call : CallRequest → Effect Value) (callee : ScopedResult)
    (arguments : List Value) (span : Span) : Effect Value :=
  match callee.value with
  | .function function => (call ⟨function, arguments, callee.scope, span⟩).locatedAt span
  | other => fail span (.invalidCallee other)

end Effect

/-- A value that was not found in a record. -/
def ScopedResult.plain (value : Value) : ScopedResult := ⟨value, none⟩

mutual

/-- Evaluates an expression, given what calls do and the records in which names
are looked up. -/
def ExpressionTree.evaluate (call : CallRequest → Effect Value) (chain : ScopeChain) :
    ExpressionTree → Effect ScopedResult
  | .constant value _ => return .plain value
  | .name identifier span => return .plain (← Effect.lookupName chain identifier span)
  | .unary operator operand span => do
      let inner ← operand.evaluate call chain
      let value ← Effect.onHeap span fun heap =>
        (heap.applyUnary operator inner.value).map fun value => (value, heap)
      return .plain value
  | .binary operator left right span => do
      let first ← left.evaluate call chain
      let second ← right.evaluate call chain
      let value ← Effect.compute span fun heap =>
        heap.applyBinary operator first.value second.value
      return .plain value
  | .shortCircuit operator left right _ => do
      let first ← left.evaluate call chain
      let decided ← Effect.fromHeap fun heap => operator.decides heap first.value
      if decided then return .plain first.value
      else right.evaluate call chain
  | .member object identifier nameSpan span => do
      let holder ← object.evaluate call chain
      let value ← Effect.lookupMember holder.value identifier nameSpan span
      return ⟨value, some holder.value⟩
  | .element object index span => do
      let holder ← object.evaluate call chain
      let position ← index.evaluate call chain
      let value ← Effect.onHeap span fun heap =>
        (heap.element holder.value position.value).map fun value => (value, heap)
      return .plain value
  | .array elements span => do
      let items ← ExpressionTree.evaluateAll call chain elements
      let value ← Effect.makeArray span (items.map ScopedResult.value)
      return .plain value
  | .call callee arguments span => do
      let target ← callee.evaluate call chain
      let given ← ExpressionTree.evaluateAll call chain arguments
      let value ← Effect.callValue call target (given.map ScopedResult.value) span
      return .plain value

/-- Evaluates expressions from left to right. -/
def ExpressionTree.evaluateAll (call : CallRequest → Effect Value) (chain : ScopeChain) :
    List ExpressionTree → Effect (List ScopedResult)
  | [] => return []
  | tree :: trees => do
      let first ← tree.evaluate call chain
      let rest ← ExpressionTree.evaluateAll call chain trees
      return first :: rest

end

/-- The value of an expression, wherever it was found. -/
def ExpressionTree.value (call : CallRequest → Effect Value) (chain : ScopeChain)
    (tree : ExpressionTree) : Effect Value := do
  let result ← tree.evaluate call chain
  return result.value

end ScriptEngine
