import ScriptEngine.Proofs.Machine.Globals

/-!
# What turns make and open

The functions that a turn makes look names up in the outermost record that the innermost
context sees. A turn that makes the stack longer is a call of a function or the body of a
record, and the new context sees what the function or the waiting context sees.
-/

set_option autoImplicit false

namespace ScriptEngine

def Context.chain (context : Context) : ScopeChain :=
  context.evaluation.chain

theorem Context.KeepsScope.chain {before after : Context} (kept : before.KeepsScope after) :
    after.chain = before.chain :=
  kept.place.chain

/-- Functions that are not old look names up in the outermost record of the chain. -/
def Heap.Defines (chain : ScopeChain) (before after : Heap) : Prop :=
  ∀ function ∈ after.functions,
    function ∈ before.functions ∨ function.globals = some chain.outermost

theorem Heap.Defines.of_functions {chain : ScopeChain} {before after : Heap}
    (same : after.functions = before.functions) : before.Defines chain after :=
  fun _ member => .inl (same ▸ member)

theorem ScopeChain.getLast?_toList (chain : ScopeChain) :
    chain.toList.getLast? = some chain.outermost :=
  List.getLast?_cons

/-- The functions of scripts look names up in the globals, behind their locals. -/
def Heap.Global (globals : RecordRef) (heap : Heap) : Prop :=
  ∀ function ∈ heap.functions, ∀ script entry, function.body = .script script entry →
    function.globals = some globals

theorem Heap.Global.of_functions {globals : RecordRef} {before after : Heap}
    (global : before.Global globals) (same : after.functions = before.functions) :
    after.Global globals :=
  fun function member => global function (same ▸ member)

theorem Heap.Global.function {globals : RecordRef} {heap : Heap} (global : heap.Global globals)
    {reference : FunctionRef} {script : Script} {entry : Option StatementRef}
    (body : (heap.function reference).body = .script script entry) :
    (heap.function reference).globals = some globals := by
  unfold Heap.function at body ⊢
  cases found : heap.functions[reference.address]? with
  | none =>
      rw [found] at body
      cases body
  | some function =>
      rw [found] at body
      exact global function (Array.mem_of_getElem? found) script entry body

/-- The heap that a statement leaves. -/
def StatementOutcome.heap : StatementOutcome → Heap
  | done _ heap => heap
  | line _ _ heap => heap
  | evaluate _ _ _ heap => heap
  | declare _ _ _ _ heap => heap
  | failed _ _ heap => heap

/-!
## The functions that statements make
-/

namespace Context

variable (context : Context) (heap : Heap)

private theorem heap_tryBranches (branches : List (ExpressionRef × Option StatementRef))
    (otherwise : Option (Option StatementRef)) (following : Option StatementRef) :
    (context.tryBranches heap branches otherwise following).heap = heap := by
  cases branches with
  | cons branch rest => rfl
  | nil => cases otherwise <;> rfl

private theorem functions_nextPass (loop : StatementRef) (item : String)
    (body : Option StatementRef) :
    (context.nextPass heap loop item body).heap.functions = heap.functions := by
  unfold nextPass
  split <;> rfl

/-- A statement makes functions that know the outermost record which it sees. -/
theorem defines_beginStatement (this : StatementRef) (statement : Statement) :
    heap.Defines context.chain (context.beginStatement heap this statement).heap := by
  cases statement with
  | expression | whileLoop | pass | record => exact .of_functions rfl
  | print values => cases values <;> exact .of_functions rfl
  | assign target => cases target <;> exact .of_functions rfl
  | returnValue value => cases value <;> exact .of_functions rfl
  | branch branches otherwise =>
      exact .of_functions (congrArg Heap.functions (context.heap_tryBranches heap _ _ _))
  | forLoop item iterable body span =>
      unfold beginStatement
      dsimp only
      split
      · exact .of_functions (context.functions_nextPass heap this item body)
      · exact .of_functions rfl
  | breakLoops | continueLoop | delete =>
      unfold beginStatement
      dsimp only
      split <;> exact .of_functions rfl
  | define name parameters body =>
      intro function member
      rcases Array.mem_push.mp member with old | rfl
      · exact .inl old
      · exact .inr rfl

/-- Handing a value to a statement makes no functions. -/
theorem functions_deliver (continuation : Continuation) (value : Value) :
    (context.deliver heap continuation value).heap.functions = heap.functions := by
  cases continuation with
  | discard | assignElementOf | assignElementAt | returnValue => rfl
  | print line rest => cases rest <;> rfl
  | assignMemberOf =>
      unfold deliver
      dsimp only
      split <;> rfl
  | assignName | assignMember =>
      simp only [deliver]
      split
      · next combined => exact (AssignOperator.keepsObjects_combine combined).functions
      · rfl
  | assignElement object index operator span =>
      simp only [deliver]
      split
      · next stored grown combined =>
          have kept : grown.functions = heap.functions :=
            (AssignOperator.keepsObjects_combine combined).functions
          split
          · next written same => exact (Heap.functions_setElement same).trans kept
          · exact kept
      · rfl
  | branch body rest otherwise following =>
      simp only [deliver]
      split
      · rfl
      · exact congrArg Heap.functions (context.heap_tryBranches heap rest otherwise following)
  | whileLoop =>
      simp only [deliver]
      split <;> rfl
  | forLoop loop item body span =>
      simp only [deliver]
      split
      · next iteration _ =>
          exact (context.setIteration (some iteration)).functions_nextPass heap loop item body
      · rfl

end Context

namespace Session

/-!
## The functions that turns make
-/

private theorem functions_raise (session : Session) (failure : RuntimeError) (top : Activation)
    (below : List Activation) :
    (session.raise failure top below).2.heap.functions = session.heap.functions := by
  obtain ⟨_, _, _, _, _, _, found, _, _, _, _, functions⟩ :=
    LocalInvariant.unwind_keeps failure top session.heap below
  simp only [raise, found]
  exact functions

private theorem functions_settleStatement (session : Session) (outcome : StatementOutcome)
    (below : List Activation) :
    (session.settleStatement outcome below).2.heap.functions = outcome.heap.functions := by
  cases outcome with
  | done | line | evaluate | declare => rfl
  | failed failure context heap => exact functions_raise _ _ _ _

private theorem functions_beginCall (session : Session) (request : CallRequest)
    (scope : Option Value) (context : Context) (continuation : Continuation)
    (below : List Activation) :
    (session.beginCall request scope context continuation below).2.heap.functions =
      session.heap.functions := by
  unfold beginCall
  dsimp only
  split
  · exact functions_raise _ _ _ _
  · split
    · next action _ =>
        have native := runNative_keeps
          { session with stack := ⟨context, .evaluating continuation⟩ :: below } action
          request.arguments request.receiver
        generalize runNative _ action _ _ = answer at native
        obtain ⟨answer, after⟩ := answer
        cases answer with
        | ok value =>
            dsimp only
            rw [modifyContext_of_stack native.stack]
            exact native.functions
        | error cause => exact (functions_raise _ _ _ _).trans native.functions
    · next script entry _ =>
        obtain ⟨_, _, opened, functions⟩ := session.callContext_keeps script entry
          (session.heap.function request.function).parameters
          (session.heap.function request.function).globals request.arguments request.receiver
        rw [opened]
        exact functions

private theorem functions_complete (session : Session) (top : Context) (caller : Activation)
    (below : List Activation) :
    (session.complete top caller below).2.heap.functions = session.heap.functions := by
  unfold complete
  dsimp only
  split
  · exact top.functions_release session.heap
  · split
    · rfl
    · next left _ => exact (functions_raise _ _ _ _).trans (left.functions_release session.heap)
  · rfl

/-- The functions that a turn makes are made by the context that takes it. -/
theorem advance_defines {session : Session} {top : Activation} {below : List Activation}
    (stack : session.stack = top :: below) :
    session.heap.Defines top.context.chain session.advance.2.heap := by
  simp only [advance, stack]
  split
  · split
    · exact .of_functions (functions_raise _ _ _ _)
    · unfold beginNext
      split
      · cases below with
        | nil => exact .of_functions rfl
        | cons caller below => exact .of_functions (functions_complete _ _ _ _)
      · split
        · exact .of_functions rfl
        · next this _ _ statement _ =>
            intro function member
            rw [functions_settleStatement] at member
            exact top.context.defines_beginStatement session.heap this statement function member
  · next continuation _ =>
      have objects := (top.context.evaluation.advance_keeps session.heap).2
      generalize top.context.evaluation.advance session.heap = answer at objects
      obtain ⟨turn, evaluation, heap⟩ := answer
      refine .of_functions (Eq.trans ?_ objects.functions)
      cases turn with
      | working => rfl
      | call request scope => exact functions_beginCall _ _ _ _ _ _
      | finished value =>
          exact (functions_settleStatement _ _ _).trans (Context.functions_deliver _ _ _ _)
      | failed failure => exact functions_raise _ _ _ _
      | endless => exact objects.functions.symm
  · exact .of_functions rfl
  · exact .of_functions rfl

/-!
## The contexts that turns open
-/

/-- What the context that a turn opens may see: a function the globals behind its locals,
a block what the waiting statement sees behind its own names. -/
inductive OpenedBy (globals : RecordRef) (waiting : Activation) (callee : Context) : Prop where
  | called {continuation : Continuation} {scope : Option Value} {span : Span}
      (waits : waiting.activity = .calling continuation scope span)
      (kind : callee.kind = .function) (parents : callee.chain.parents = [globals])
  | declared {name : String} {span : Span} (waits : waiting.activity = .declaring name span)
      (kind : callee.kind = .block) (parents : callee.chain.parents = waiting.context.visible)

/-- A called function sees the globals, wherever it has been defined. -/
theorem callContext_scope {session : Session} (global : session.heap.Global session.globals)
    {function : FunctionRef} {script : Script} {entry : Option StatementRef}
    (body : (session.heap.function function).body = .script script entry)
    (parameters : List String) (arguments : List Value) (receiver : Option Value) :
    let opened := session.callContext script entry parameters
      (session.heap.function function).globals arguments receiver
    opened.1.kind = .function ∧ opened.1.chain.parents = [session.globals] := by
  intro opened
  obtain ⟨locals, bound, same, _⟩ := session.callContext_keeps script entry parameters
    (session.heap.function function).globals arguments receiver
  have scope := (Context.functionCall script locals
    ((session.heap.function function).globals.getD session.globals)).keepsScope_enter entry none
      none none
  have callee : opened.1 = _ := congrArg Prod.fst same
  rw [callee]
  refine ⟨scope.kind, (congrArg ScopeChain.parents scope.chain).trans ?_⟩
  rw [global.function body]
  rfl

private theorem not_longer {top callee waiting : Activation} {below : List Activation}
    (stack : top :: below = callee :: waiting :: below) : False := by
  have lengths := congrArg List.length stack
  simp only [List.length_cons] at lengths
  omega

private theorem raise_shorter {session : Session} {failure : RuntimeError} {top : Activation}
    {below after : List Activation} (stack : (session.raise failure top below).2.stack = after) :
    after.length ≤ below.length + 1 := by
  have same : (session.raise failure top below).2.stack = top.unwound below :=
    unwind_stack failure top session.heap below
  have suffix := (unwound_contexts top below).length_le
  rw [← stack, same]
  simpa only [List.length_map, List.length_cons] using suffix

private theorem raise_not_longer {session : Session} {failure : RuntimeError}
    {top callee waiting : Activation} {below : List Activation}
    (stack : (session.raise failure top below).2.stack = callee :: waiting :: below) : False := by
  have shorter := raise_shorter stack
  simp only [List.length_cons] at shorter
  omega

private theorem complete_not_longer {session : Session} {top : Context}
    {caller callee waiting : Activation} {below : List Activation}
    (depth : session.stack.length = below.length + 2)
    (stack : (session.complete top caller below).2.stack = callee :: waiting :: caller :: below) :
    False := by
  unfold complete at stack
  dsimp only at stack
  split at stack
  · have lengths := congrArg List.length stack
    simp at lengths
  · split at stack
    · have lengths := congrArg List.length stack
      simp at lengths
    · have shorter := raise_shorter stack
      simp at shorter
  · rw [stack] at depth
    simp at depth

private theorem settleStatement_opened {session : Session} {globals : RecordRef}
    {outcome : StatementOutcome} {callee waiting : Activation} {below : List Activation}
    (opened : (session.settleStatement outcome below).2.stack = callee :: waiting :: below) :
    OpenedBy globals waiting callee.context := by
  cases outcome with
  | done | line | evaluate => exact (not_longer opened).elim
  | failed => exact (raise_not_longer opened).elim
  | declare name body span context heap =>
      obtain ⟨rfl, rest⟩ := List.cons.inj opened
      obtain ⟨rfl, _⟩ := List.cons.inj rest
      have scope := (Context.block context.script (heap.newRecord .empty).1
        context.visible).keepsScope_enter body none none none
      exact .declared rfl scope.kind (congrArg ScopeChain.parents scope.chain)

private theorem beginCall_opened {session : Session} (global : session.heap.Global session.globals)
    {request : CallRequest} {scope : Option Value} {context : Context}
    {continuation : Continuation} {callee waiting : Activation} {below : List Activation}
    (opened : (session.beginCall request scope context continuation below).2.stack =
      callee :: waiting :: below) : OpenedBy session.globals waiting callee.context := by
  unfold beginCall at opened
  dsimp only at opened
  split at opened
  · exact (raise_not_longer opened).elim
  · split at opened
    · next action _ =>
        have native := runNative_keeps
          { session with stack := ⟨context, .evaluating continuation⟩ :: below } action
          request.arguments request.receiver
        generalize runNative _ action _ _ = answer at native opened
        obtain ⟨answer, after⟩ := answer
        cases answer with
        | ok value =>
            dsimp only at opened
            rw [modifyContext_of_stack native.stack] at opened
            exact (not_longer opened).elim
        | error cause => exact (raise_not_longer opened).elim
    · next script entry body =>
        obtain ⟨kind, parents⟩ := callContext_scope global body
          (session.heap.function request.function).parameters request.arguments request.receiver
        obtain ⟨rfl, rest⟩ := List.cons.inj opened
        obtain ⟨rfl, _⟩ := List.cons.inj rest
        exact .called rfl kind parents

/-- A context that a turn puts above the others belongs to a call or to a block of the
context that took the turn. -/
theorem advance_opened {session : Session} (global : session.heap.Global session.globals)
    {old callee waiting : Activation} {below : List Activation}
    (stack : session.stack = old :: below)
    (opened : session.advance.2.stack = callee :: waiting :: below) :
    OpenedBy session.globals waiting callee.context := by
  simp only [advance, stack] at opened
  split at opened
  · split at opened
    · exact (raise_not_longer opened).elim
    · unfold beginNext at opened
      split at opened
      · cases below with
        | nil => exact (not_longer opened).elim
        | cons caller below =>
            exact (complete_not_longer rfl opened).elim
      · split at opened
        · exact (not_longer opened).elim
        · exact settleStatement_opened opened
  · next continuation _ =>
      have objects := (old.context.evaluation.advance_keeps session.heap).2
      generalize old.context.evaluation.advance session.heap = answer at objects opened
      obtain ⟨turn, evaluation, heap⟩ := answer
      cases turn with
      | working => exact (not_longer opened).elim
      | call request scope =>
          exact @beginCall_opened { session with heap } (global.of_functions objects.functions) _ _
            _ _ _ _ _ opened
      | finished value => exact settleStatement_opened opened
      | failed failure => exact (raise_not_longer opened).elim
      | endless => exact (not_longer (stack.symm.trans opened)).elim
  · exact (not_longer (stack.symm.trans opened)).elim
  · exact (not_longer (stack.symm.trans opened)).elim

end Session

end ScriptEngine
