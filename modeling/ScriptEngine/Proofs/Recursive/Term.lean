import ScriptEngine.Proofs.Grammar.Constants
import ScriptEngine.Proofs.Grammar.Printing
import ScriptEngine.Proofs.Recursive.Expression

/-!
# The value of a term

An expression without calls does nothing to a session but to make arrays, and where its nodes
stand in the source matters to errors only. So what it does is said of the heap alone, by
recursion over the term: it gives a value and perhaps makes arrays, or it fails, or it
compares two values forever.
-/

set_option autoImplicit false

namespace ScriptEngine

/-- What comes of something that is done. -/
inductive Outcome (α : Type) where
  | value (value : α)
  | failed
  /-- It goes on forever. -/
  | endless

namespace Outcome

variable {α β : Type}

def bind (outcome : Outcome α) (following : α → Outcome β) : Outcome β :=
  match outcome with
  | .value given => following given
  | .failed => .failed
  | .endless => .endless

instance : Monad Outcome where
  pure := .value
  bind := bind

instance : LawfulMonad Outcome :=
  LawfulMonad.mk' Outcome (fun outcome => by cases outcome <;> rfl) (fun _ _ => rfl)
    (fun outcome _ _ => by cases outcome <;> rfl)

end Outcome

/-- Something that is done with a heap. -/
abbrev HeapAction : Type → Type :=
  StateT Heap Outcome

namespace HeapAction

variable {α : Type}

def fail : HeapAction α := fun _ => .failed

/-- Computes something from the heap, unless that goes on forever, and perhaps adds an object to
it. -/
def compute (action : Heap → Option (Except RuntimeCause (α × Heap))) : HeapAction α := fun heap =>
  match action heap with
  | some (.ok answer) => .value answer
  | some (.error _) => .failed
  | none => .endless

/-- Looks something up in the heap and perhaps adds an object to it. -/
def attempt (action : Heap → Except RuntimeCause (α × Heap)) : HeapAction α :=
  compute fun heap => some (action heap)

/-- Looks something up in the heap. -/
def look (read : Heap → Except RuntimeCause α) : HeapAction α :=
  attempt fun heap => (read heap).map fun value => (value, heap)

/-- The member that is found under a name in this record alone. -/
def lookupMember (object : Value) (name : String) : HeapAction Value :=
  match object.recordRef? with
  | none => fail
  | some record =>
      attempt fun heap =>
        match heap.lookup record name with
        | some value => .ok (value, heap)
        | none => .error (.undefinedMember name)

/-- A new array of copies of the values. -/
def makeArray (values : List Value) : HeapAction Value :=
  attempt fun heap =>
    let (items, heap) := Evaluation.duplicateAll heap values
    let (array, heap) := heap.newArray items.toArray
    .ok (.array array, heap)

end HeapAction

open HeapAction

mutual

/-- Evaluates an expression without calls, given the records in which names are looked up. -/
def Term.evaluate (chain : ScopeChain) : Term → HeapAction Value
  | .constant value => return value
  | .name identifier =>
      attempt fun heap =>
        match heap.lookupChain chain.toList identifier with
        | some value => .ok (value, heap)
        | none => .error (.invalidAccess identifier)
  | .unary operator operand => do
      let inner ← operand.evaluate chain
      look fun heap => heap.applyUnary operator inner
  | .middle (.binary operator) left right => do
      let first ← left.evaluate chain
      let second ← right.evaluate chain
      compute fun heap => heap.applyBinary operator first second
  | .middle (.logical operator) left right => do
      let first ← left.evaluate chain
      if operator.decides (← get) first then return first else right.evaluate chain
  | .member object identifier => do
      let holder ← object.evaluate chain
      lookupMember holder identifier
  | .element object index => do
      let holder ← object.evaluate chain
      let position ← index.evaluate chain
      look fun heap => heap.element holder position
  | .array elements => do
      let items ← Term.evaluateAll chain elements
      makeArray items
  | .call .. => fail

/-- Evaluates expressions without calls from left to right. -/
def Term.evaluateAll (chain : ScopeChain) : List Term → HeapAction (List Value)
  | [] => return []
  | term :: terms => do
      let first ← term.evaluate chain
      let rest ← Term.evaluateAll chain terms
      return first :: rest

end

mutual

/-- The expression has no call, and its constants refer to no object, as those of a source. -/
def Term.CallFree : Term → Prop
  | .constant value => value.Plain
  | .name _ => True
  | .unary _ operand => operand.CallFree
  | .middle _ left right => left.CallFree ∧ right.CallFree
  | .member object _ => object.CallFree
  | .element object index => object.CallFree ∧ index.CallFree
  | .array elements => Term.AllCallFree elements
  | .call .. => False

def Term.AllCallFree : List Term → Prop
  | [] => True
  | term :: terms => term.CallFree ∧ Term.AllCallFree terms

end

/-!
## What an expression does to a session
-/

/-- The effect does to the heap what the action does, and nothing else: it gives the same, up to
`read`, or both fail, or both go on forever. -/
def Effect.Performs {α β : Type} (read : α → β) (effect : Effect α) (action : HeapAction β) :
    Prop :=
  ∀ session : Session, match action session.heap with
    | .value (value, heap) =>
        ∃ result, effect session = (.value result, { session with heap }) ∧ read result = value
    | .failed => ∃ failure after, effect session = (.failed failure, after)
    | .endless => ∃ after, effect session = (.unfinished, after)

namespace Effect.Performs

variable {α β γ δ : Type} {read : α → β}

theorem pure (result : α) : Performs read (Pure.pure result) (Pure.pure (read result)) := by
  intro session
  exact ⟨result, rfl, rfl⟩

theorem fail (span : Span) (cause : RuntimeCause) :
    Performs read (Effect.fail span cause) HeapAction.fail := by
  intro session
  exact ⟨_, _, rfl⟩

theorem compute (span : Span) (action : Heap → Option (Except RuntimeCause (α × Heap))) :
    Performs id (Effect.compute span action) (HeapAction.compute action) := by
  intro session
  unfold HeapAction.compute Effect.compute
  generalize action session.heap = answer
  cases answer with
  | none => exact ⟨_, rfl⟩
  | some answer =>
      cases answer with
      | ok answer => exact ⟨answer.1, rfl, rfl⟩
      | error cause => exact ⟨_, _, rfl⟩

theorem onHeap (span : Span) (action : Heap → Except RuntimeCause (α × Heap)) :
    Performs id (Effect.onHeap span action) (attempt action) :=
  compute span fun heap => some (action heap)

theorem bind {later : γ → δ} {effect : Effect α} {action : HeapAction β}
    {following : α → Effect γ} {next : β → HeapAction δ} (first : Performs read effect action)
    (rest : ∀ result, Performs later (following result) (next (read result))) :
    Performs later (effect >>= following) (action >>= next) := by
  intro session
  have done := first session
  simp only [Bind.bind, StateT.bind, Effect.bind]
  generalize action session.heap = answer at done
  cases answer with
  | failed =>
      obtain ⟨failure, after, failed⟩ := done
      rw [failed]
      exact ⟨failure, after, rfl⟩
  | endless =>
      obtain ⟨after, endless⟩ := done
      rw [endless]
      exact ⟨after, rfl⟩
  | value answer =>
      obtain ⟨value, heap⟩ := answer
      obtain ⟨result, given, rfl⟩ := done
      rw [given]
      exact rest result { session with heap }

theorem branch {condition : Heap → Bool} {yes no : Effect α} {yesAction noAction : HeapAction β}
    (one : Performs read yes yesAction) (other : Performs read no noAction) :
    Performs read (Effect.fromHeap condition >>= fun truth => if truth then yes else no)
      (get >>= fun heap => if condition heap then yesAction else noAction) := by
  intro session
  rw [Effect.fromHeap_bind]
  show match (if condition session.heap then yesAction else noAction) session.heap with
    | .value (value, heap) => _
    | .failed => _
    | .endless => _
  cases condition session.heap with
  | true => exact one session
  | false => exact other session

theorem lookupMember (object : Value) (name : String) (nameSpan span : Span) :
    Performs id (Effect.lookupMember object name nameSpan span)
      (HeapAction.lookupMember object name) := by
  unfold Effect.lookupMember HeapAction.lookupMember
  cases object.recordRef? with
  | none => exact .fail span _
  | some record => exact .onHeap nameSpan _

end Effect.Performs

namespace ExpressionTree

open Effect (Performs)

variable {call : CallRequest → Effect Value} {chain : ScopeChain}

/-- A value is kept as it is, perhaps together with the record that it was found in. -/
private theorem performs_kept {effect : Effect Value} {action : HeapAction Value}
    (performs : Performs id effect action) {result : Value → ScopedResult}
    (kept : ∀ value, (result value).value = value) :
    Performs ScopedResult.value (effect >>= fun value => pure (result value)) action := by
  have whole : Performs ScopedResult.value (effect >>= fun value => pure (result value))
      (action >>= pure) := by
    refine .bind performs fun value => ?_
    rw [← kept (id value)]
    exact .pure (result value)
  rwa [bind_pure] at whole

mutual

/-- An expression without calls does what its term says, whatever calls do. -/
theorem performs_evaluate (tree : ExpressionTree) (free : tree.term.CallFree) :
    Performs ScopedResult.value (tree.evaluate call chain) (tree.term.evaluate chain) := by
  cases tree with
  | constant value span => exact .pure (ScopedResult.plain value)
  | name identifier span => exact performs_kept (.onHeap span _) fun _ => rfl
  | unary operator operand span =>
      exact .bind (performs_evaluate operand free) fun inner =>
        performs_kept (.onHeap span _) fun _ => rfl
  | binary operator left right span =>
      exact .bind (performs_evaluate left free.1) fun first =>
        .bind (performs_evaluate right free.2) fun second =>
          performs_kept (.compute span _) fun _ => rfl
  | shortCircuit operator left right span =>
      refine .bind (performs_evaluate left free.1) fun first => ?_
      exact .branch (.pure (ScopedResult.plain first.value)) (performs_evaluate right free.2)
  | member object identifier nameSpan span =>
      refine .bind (performs_evaluate object free) fun holder => ?_
      exact performs_kept (.lookupMember holder.value identifier nameSpan span) fun value => rfl
  | element object index span =>
      exact .bind (performs_evaluate object free.1) fun holder =>
        .bind (performs_evaluate index free.2) fun position =>
          performs_kept (.onHeap span _) fun _ => rfl
  | array elements span =>
      refine .bind (performs_evaluateAll elements free) fun items => ?_
      exact performs_kept (.onHeap span _) fun value => rfl
  | call callee arguments span => exact free.elim

theorem performs_evaluateAll (trees : List ExpressionTree)
    (free : Term.AllCallFree (ExpressionTree.terms trees)) :
    Performs (List.map ScopedResult.value) (ExpressionTree.evaluateAll call chain trees)
      (Term.evaluateAll chain (ExpressionTree.terms trees)) := by
  cases trees with
  | nil => exact .pure []
  | cons tree trees =>
      refine .bind (performs_evaluate tree free.1) fun first => ?_
      refine .bind (performs_evaluateAll trees free.2) fun rest => ?_
      exact .pure (first :: rest)

end

/-- So does the value of the expression. -/
theorem performs_value (call : CallRequest → Effect Value) (chain : ScopeChain)
    (tree : ExpressionTree) (free : tree.term.CallFree) :
    Performs id (tree.value call chain) (tree.term.evaluate chain) := by
  have whole : Performs id (tree.value call chain) (tree.term.evaluate chain >>= pure) :=
    .bind (performs_evaluate tree free) fun result => .pure result.value
  rwa [bind_pure] at whole

end ExpressionTree

end ScriptEngine
