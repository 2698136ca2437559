import ScriptEngine.Proofs.Recursive.Expression

/-!
# Executing trees recursively

What statements mean, said by recursion over their tree: a sequence runs one
statement after another until one of them says that the rest is not to be run, and
compounds decide what the end of their body means. Contexts, frames and jump
targets do not come up here.

A loop may go on for ever, and so may functions that call each other. So a number
bounds both the passes of every loop and the depth of calls.
-/

set_option autoImplicit false

namespace ScriptEngine

/-- How a statement ends: what follows it is run, some more loops than the
innermost one are left, the innermost loop goes on with its next pass, or the
context ends with a value. -/
inductive Exit where
  | normal
  | leaving (more : Nat)
  | continuing
  | returned (value : Value)

namespace Exit

/-- How a loop ends when its body has ended in this way. Without an answer the loop
goes on with its next pass. -/
def afterPass : Exit → Option Exit
  | .normal => none
  | .continuing => none
  | .leaving 0 => some .normal
  | .leaving (more + 1) => some (.leaving more)
  | .returned value => some (.returned value)

/-- The value that a context ends with. -/
def value : Exit → Value
  | .returned value => value
  | _ => .none

end Exit

namespace Effect

variable {α : Type}

/-- Takes longer than anybody waits. -/
def never : Effect α := fun session =>
  (.unfinished, session)

/-- Fails without a place. -/
def refuse (cause : RuntimeCause) : Effect α := fun session =>
  (.failed (.unplaced cause), session)

/-- Time goes on by one statement. -/
def tick : Effect Unit := fun session =>
  (.value (), { session with now := session.now + 1 })

theorem tick_bind (following : Unit → Effect α) (session : Session) :
    (tick >>= following) session = following () { session with now := session.now + 1 } := rfl

/-- Adds an object to the heap. -/
def allocate (action : Heap → α × Heap) : Effect α := fun session =>
  (.value (action session.heap).1, { session with heap := (action session.heap).2 })

/-- Changes the heap. -/
def changeHeap (change : Heap → Heap) : Effect Unit := fun session =>
  (.value (), { session with heap := change session.heap })

/-- Binds a name in the innermost of the visible records. -/
def bindName (chain : ScopeChain) (name : String) (value : Value) : Effect Unit :=
  changeHeap fun heap => heap.setMember chain.names name value

theorem bindName_bind (chain : ScopeChain) (name : String) (value : Value)
    (following : Unit → Effect α) (session : Session) :
    (bindName chain name value >>= following) session =
      following () { session with heap := session.heap.setMember chain.names name value } := rfl

def writeLine (text : String) : Effect Unit := fun session =>
  (.value (), session.writeLine text)

/-- A failure clears the record on its way out. -/
def clearingOnFailure (record : RecordRef) (effect : Effect α) : Effect α := fun session =>
  match effect session with
  | (.failed failure, session) =>
      (.failed failure, { session with heap := session.heap.clearRecord record })
  | answer => answer

/-- What an assignment stores, given what its target holds. -/
def combine (operator : AssignOperator) (span : Span) (held : Heap → Except RuntimeCause Value)
    (given : Value) : Effect Value :=
  onHeap span fun heap => operator.combine heap (fun _ => held heap) given

/-- Passes of a loop, until one says how the loop ends. -/
def repeatPass (pass : α → Effect (Exit ⊕ α)) : Nat → α → Effect Exit
  | 0, _ => never
  | bound + 1, state => do
      match ← pass state with
      | .inl exit => return exit
      | .inr next => repeatPass pass bound next

/-- Runs a native function. -/
def native (action : NativeAction) (arguments : List Value) (receiver : Option Value) :
    Effect Value := fun session =>
  match session.runNative action arguments receiver with
  | (.ok value, session) => (.value value, session)
  | (.error cause, session) => (.failed (.unplaced cause), session)

/-- A new record with the parameters of a call, and with its receiver. -/
def openLocals (parameters : List String) (arguments : List Value) (receiver : Option Value) :
    Effect RecordRef :=
  allocate fun heap =>
    let (locals, heap) := heap.newRecord .empty
    let heap := heap.bindParameters locals parameters arguments
    match receiver with
    | some value => (locals, heap.setMember locals selfName value)
    | none => (locals, heap)

end Effect

namespace Heap

/-- What a name stands for. -/
def valueOfName (chain : ScopeChain) (name : String) (heap : Heap) : Except RuntimeCause Value :=
  match heap.lookupChain chain.toList name with
  | some value => .ok value
  | none => .error (.invalidAccess name)

/-- What a member of a record is. -/
def valueOfMember (record : RecordRef) (name : String) (heap : Heap) : Except RuntimeCause Value :=
  match heap.lookup record name with
  | some value => .ok value
  | none => .error (.undefinedMember name)

end Heap

/-- The texts of the values of several expressions, each read as soon as the
expression has been evaluated. -/
def ExpressionTree.texts (call : CallRequest → Effect Value) (chain : ScopeChain) :
    List ExpressionTree → Effect (List String)
  | [] => return []
  | tree :: trees => do
      let value ← tree.value call chain
      let text ← Effect.fromHeap fun heap => heap.text value
      let rest ← ExpressionTree.texts call chain trees
      return text :: rest

/-- What a `break` statement inside of so many loops comes to. -/
def Exit.ofBreak (loops count : Nat) (span : Span) : Effect Exit :=
  if count = 0 then Effect.fail span (.jump .invalidBreakCount)
  else if loops = 0 then Effect.fail span (.jump .noBreakTarget)
  else if loops < count then Effect.fail span (.jump (.tooFewCompounds (count - loops)))
  else return .leaving (count - 1)

/-- What a `continue` statement inside of so many loops comes to. -/
def Exit.ofContinue (loops : Nat) (span : Span) : Effect Exit :=
  if loops = 0 then Effect.fail span (.jump .noContinueTarget) else return .continuing

section

variable (call : CallRequest → Effect Value) (bound : Nat) (script : Script)

mutual

/-- Executes a statement that is inside of so many loops of its context, given what
calls do, how many passes of a loop are waited for, the script to which function
definitions belong, and the records in which names are looked up. -/
def StatementTree.execute (chain : ScopeChain) (loops : Nat) : StatementTree → Effect Exit
  | .expression expression => do
      Effect.tick
      let _ ← expression.value call chain
      return .normal
  | .print values => do
      Effect.tick
      let texts ← ExpressionTree.texts call chain values
      Effect.writeLine (" ".intercalate texts)
      return .normal
  | .assignName name operator value span => do
      Effect.tick
      let given ← value.value call chain
      let stored ← Effect.combine operator span (Heap.valueOfName chain name) given
      Effect.bindName chain name stored
      return .normal
  | .assignMember object name operator value span => do
      Effect.tick
      let holder ← object.value call chain
      match holder.recordRef? with
      | none => Effect.fail span (.nonRecord holder)
      | some record =>
          let given ← value.value call chain
          let stored ← Effect.combine operator span (Heap.valueOfMember record name) given
          Effect.changeHeap fun heap => heap.setMember record name stored
          return .normal
  | .assignElement object index operator value span => do
      Effect.tick
      let holder ← object.value call chain
      let position ← index.value call chain
      let given ← value.value call chain
      let stored ← Effect.combine operator span (fun heap => heap.element holder position) given
      Effect.onHeap span fun heap =>
        (heap.setElement holder position stored).map fun heap => ((), heap)
      return .normal
  | .branch branches => do
      Effect.tick
      branches.execute chain loops
  | .whileLoop condition body =>
      let pass (_ : Unit) : Effect (Exit ⊕ Unit) := do
        Effect.tick
        let holds ← condition.value call chain
        if ← Effect.fromHeap fun heap => heap.isTruthy holds then
          match (← StatementTree.executeBlock chain (loops + 1) body).afterPass with
          | some exit => return .inl exit
          | none => return .inr ()
        else
          return .inl .normal
      Effect.repeatPass pass bound ()
  | .forLoop item iterable body span => do
      Effect.tick
      let source ← iterable.value call chain
      match Iteration.start source with
      | .error cause => Effect.fail span cause
      | .ok start =>
          let pass (iteration : Iteration) : Effect (Exit ⊕ Iteration) := do
            match ← Effect.fromHeap fun heap => iteration.next heap with
            | none => return .inl .normal
            | some (value, next) =>
                Effect.bindName chain item value
                match (← StatementTree.executeBlock chain (loops + 1) body).afterPass with
                | some exit => return .inl exit
                | none =>
                    Effect.tick
                    return .inr next
          Effect.repeatPass pass bound start
  | .breakLoops count span => do
      Effect.tick
      Exit.ofBreak loops count span
  | .continueLoop span => do
      Effect.tick
      Exit.ofContinue loops span
  | .returnValue none => do
      Effect.tick
      return .returned .none
  | .returnValue (some value) => do
      Effect.tick
      let given ← value.value call chain
      return .returned given
  | .pass => do
      Effect.tick
      return .normal
  | .delete name span => do
      Effect.tick
      Effect.onHeap span fun heap =>
        if (heap.record chain.names).contains name then
          .ok ((), heap.eraseMember chain.names name)
        else .error (.invalidAccess name)
      return .normal
  | .define name parameters entry _ => do
      Effect.tick
      let function ← Effect.allocate fun heap =>
        heap.newFunction ⟨name, parameters, .script script entry, some chain.outermost⟩
      Effect.bindName chain name (.function function)
      return .normal
  | .record name body _ => do
      Effect.tick
      let members ← Effect.allocate fun heap => heap.newRecord .empty
      Effect.clearingOnFailure members do
        let _ ← StatementTree.executeBlock ⟨members, chain.toList⟩ 0 body
        Effect.tick
      Effect.bindName chain name (.record members)
      return .normal

/-- Executes the first branch whose condition is truthy. -/
def BranchTree.execute (chain : ScopeChain) (loops : Nat) : BranchTree → Effect Exit
  | .missing => return .normal
  | .otherwise body => StatementTree.executeBlock chain loops body
  | .test condition body rest => do
      let holds ← condition.value call chain
      if ← Effect.fromHeap fun heap => heap.isTruthy holds then
        StatementTree.executeBlock chain loops body
      else
        rest.execute chain loops

/-- Executes statements one after another, until one does not end normally. -/
def StatementTree.executeBlock (chain : ScopeChain) (loops : Nat) :
    List StatementTree → Effect Exit
  | [] => return .normal
  | tree :: rest => do
      match ← tree.execute chain loops with
      | .normal => StatementTree.executeBlock chain loops rest
      | exit => return exit

end

end

namespace Structured

/-- Calls a function. A body is executed over a record of locals, which is cleared
however the call ends. -/
def call : Nat → CallRequest → Effect Value
  | 0, _ => Effect.never
  | bound + 1, request => do
      let function ← Effect.fromHeap fun heap => heap.function request.function
      match function.checkArity request.arguments.length with
      | .error cause => Effect.refuse cause
      | .ok () =>
          match function.body with
          | .native action => Effect.native action request.arguments request.receiver
          | .script script entry =>
              match script.block? entry with
              | none => Effect.never
              | some body =>
                  let globals ← fun session => (.value session.globals, session)
                  let locals ← Effect.openLocals function.parameters request.arguments
                    request.receiver
                  let chain : ScopeChain := ⟨locals, [function.globals.getD globals]⟩
                  let value ← Effect.clearingOnFailure locals do
                    let exit ← StatementTree.executeBlock (call bound) bound script chain 0 body
                    Effect.tick
                    return exit.value
                  Effect.changeHeap fun heap => heap.clearRecord locals
                  return value

/-- Runs a whole script over the globals. -/
def run (bound : Nat) (script : Script) (globals : RecordRef) (body : List StatementTree) :
    Effect Unit := do
  let _ ← StatementTree.executeBlock (call bound) bound script ⟨globals, []⟩ 0 body
  Effect.tick

end Structured

end ScriptEngine
