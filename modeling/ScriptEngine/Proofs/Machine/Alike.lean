import ScriptEngine.Proofs.Control.Alike
import ScriptEngine.Proofs.Machine.Muted

/-!
# Sessions that are alike

Two sessions are alike if their contexts are, over heaps that are alike, and one of them has
written the same as the other behind some text of its own. Without a time limit a turn that
does not look at the clock leaves them alike (`Session.Alike.advance`), and so does running a
script to its end (`Session.Alike.execute`).
-/

set_option autoImplicit false

namespace ScriptEngine

variable {pairing : Pairing} {heap₁ heap₂ : Heap}

/-!
## Statements
-/

/-- The statements wait for a value in the same way, with values that are alike. -/
inductive Continuation.Alike (pairing : Pairing) : Continuation → Continuation → Prop where
  | discard : Alike pairing .discard .discard
  | print (line : String) (rest : List ExpressionRef) :
      Alike pairing (.print line rest) (.print line rest)
  | assignName (name : String) (operator : AssignOperator) (span : Span) :
      Alike pairing (.assignName name operator span) (.assignName name operator span)
  | assignMemberOf (name : String) (operator : AssignOperator) (value : ExpressionRef)
      (span : Span) :
      Alike pairing (.assignMemberOf name operator value span)
        (.assignMemberOf name operator value span)
  | assignMember {object₁ object₂ : RecordRef} (object : pairing.records object₁ object₂)
      (name : String) (operator : AssignOperator) (span : Span) :
      Alike pairing (.assignMember object₁ name operator span)
        (.assignMember object₂ name operator span)
  | assignElementOf (index value : ExpressionRef) (operator : AssignOperator) (span : Span) :
      Alike pairing (.assignElementOf index value operator span)
        (.assignElementOf index value operator span)
  | assignElementAt {object₁ object₂ : Value} (object : object₁.Alike pairing object₂)
      (value : ExpressionRef) (operator : AssignOperator) (span : Span) :
      Alike pairing (.assignElementAt object₁ value operator span)
        (.assignElementAt object₂ value operator span)
  | assignElement {object₁ object₂ index₁ index₂ : Value}
      (object : object₁.Alike pairing object₂) (index : index₁.Alike pairing index₂)
      (operator : AssignOperator) (span : Span) :
      Alike pairing (.assignElement object₁ index₁ operator span)
        (.assignElement object₂ index₂ operator span)
  | branch (body : Option StatementRef) (rest : List (ExpressionRef × Option StatementRef))
      (otherwise : Option (Option StatementRef)) (following : Option StatementRef) :
      Alike pairing (.branch body rest otherwise following)
        (.branch body rest otherwise following)
  | whileLoop (loop : StatementRef) (body : Option StatementRef) :
      Alike pairing (.whileLoop loop body) (.whileLoop loop body)
  | forLoop (loop : StatementRef) (item : String) (body : Option StatementRef) (span : Span) :
      Alike pairing (.forLoop loop item body span) (.forLoop loop item body span)
  | returnValue : Alike pairing .returnValue .returnValue

inductive StatementOutcome.Alike (pairing : Pairing) :
    StatementOutcome → StatementOutcome → Prop where
  | done {context₁ context₂ : Context} {heap₁ heap₂ : Heap}
      (context : context₁.Alike pairing context₂) (heap : heap₁.Alike pairing heap₂) :
      Alike pairing (.done context₁ heap₁) (.done context₂ heap₂)
  | line (text : String) {context₁ context₂ : Context} {heap₁ heap₂ : Heap}
      (context : context₁.Alike pairing context₂) (heap : heap₁.Alike pairing heap₂) :
      Alike pairing (.line text context₁ heap₁) (.line text context₂ heap₂)
  | evaluate (expression : ExpressionRef) {continuation₁ continuation₂ : Continuation}
      {context₁ context₂ : Context} {heap₁ heap₂ : Heap}
      (continuation : continuation₁.Alike pairing continuation₂)
      (context : context₁.Alike pairing context₂) (heap : heap₁.Alike pairing heap₂) :
      Alike pairing (.evaluate expression continuation₁ context₁ heap₁)
        (.evaluate expression continuation₂ context₂ heap₂)
  | declare (name : String) (body : Option StatementRef) (span : Span)
      {context₁ context₂ : Context} {heap₁ heap₂ : Heap}
      (context : context₁.Alike pairing context₂) (heap : heap₁.Alike pairing heap₂) :
      Alike pairing (.declare name body span context₁ heap₁)
        (.declare name body span context₂ heap₂)
  | failed {failure₁ failure₂ : RuntimeError} {context₁ context₂ : Context}
      {heap₁ heap₂ : Heap} (failure : failure₁.Alike pairing failure₂)
      (context : context₁.Alike pairing context₂) (heap : heap₁.Alike pairing heap₂) :
      Alike pairing (.failed failure₁ context₁ heap₁) (.failed failure₂ context₂ heap₂)

namespace Context.Alike

variable {context₁ context₂ : Context} (alike : context₁.Alike pairing context₂)
  (heap : heap₁.Alike pairing heap₂)

include alike heap

theorem bind (name : String) {value₁ value₂ : Value} (value : value₁.Alike pairing value₂) :
    (context₁.bind heap₁ name value₁).Alike pairing (context₂.bind heap₂ name value₂) :=
  heap.setMember alike.names name value

theorem tryBranches (branches : List (ExpressionRef × Option StatementRef))
    (otherwise : Option (Option StatementRef)) (following : Option StatementRef) :
    (context₁.tryBranches heap₁ branches otherwise following).Alike pairing
      (context₂.tryBranches heap₂ branches otherwise following) := by
  cases branches with
  | cons branch rest => exact .evaluate branch.1 (.branch _ rest otherwise following) alike heap
  | nil =>
      cases otherwise with
      | some body => exact .done (alike.enter body following none none) heap
      | none => exact .done alike.proceed heap

theorem nextPass (loop : StatementRef) (item : String) (body : Option StatementRef) :
    (context₁.nextPass heap₁ loop item body).Alike pairing
      (context₂.nextPass heap₂ loop item body) := by
  have cursors := alike.iteration
  have items : Option.Rel
      (fun item₁ item₂ => item₁.1.Alike pairing item₂.1 ∧ item₁.2.Alike pairing item₂.2)
      (context₁.iteration.bind (Iteration.next heap₁))
      (context₂.iteration.bind (Iteration.next heap₂)) := by
    generalize context₁.iteration = cursor₁ at cursors ⊢
    generalize context₂.iteration = cursor₂ at cursors ⊢
    cases cursors with
    | none => exact .none
    | some cursor => exact cursor.next heap
  unfold Context.nextPass
  generalize context₁.iteration.bind _ = item₁ at items
  generalize context₂.iteration.bind _ = item₂ at items
  cases items with
  | none => exact .done (alike.setIteration .none).proceed heap
  | some found =>
      exact .done ((alike.setIteration (.some found.2)).enterLoopBody loop body)
        (alike.bind heap item found.1)

omit alike in
/-- A jump that may be impossible. -/
theorem jumps {answer₁ answer₂ : Except JumpFailure Unit} {after₁ after₂ : Context}
    (same : answer₁ = answer₂) (after : after₁.Alike pairing after₂) (span : Span) :
    (match (answer₁, after₁) with
      | (.ok (), context) => StatementOutcome.done context heap₁
      | (.error failure, context) => .failed (.placed (.jump failure) span) context heap₁).Alike
        pairing
      (match (answer₂, after₂) with
        | (.ok (), context) => StatementOutcome.done context heap₂
        | (.error failure, context) => .failed (.placed (.jump failure) span) context heap₂) := by
  subst same
  cases answer₁ with
  | ok => exact .done after heap
  | error failure => exact .failed (.placed (.jump failure) span) after heap

theorem beginStatement (this : StatementRef) (statement : Statement) :
    (context₁.beginStatement heap₁ this statement).Alike pairing
      (context₂.beginStatement heap₂ this statement) := by
  cases statement with
  | expression expression => exact .evaluate expression .discard alike heap
  | print values =>
      cases values with
      | nil => exact .line "" alike.proceed heap
      | cons first rest => exact .evaluate first (.print "" rest) alike heap
  | assign target operator value span =>
      cases target with
      | name name => exact .evaluate value (.assignName name operator span) alike heap
      | member object name =>
          exact .evaluate object (.assignMemberOf name operator value span) alike heap
      | element object index =>
          exact .evaluate object (.assignElementOf index value operator span) alike heap
  | branch branches otherwise =>
      unfold Context.beginStatement
      rw [alike.script]
      exact alike.tryBranches heap branches otherwise _
  | whileLoop condition body => exact .evaluate condition (.whileLoop this body) alike heap
  | forLoop item iterable body span =>
      have cursors := alike.iteration
      unfold Context.beginStatement
      dsimp only
      generalize context₁.iteration = cursor₁ at cursors
      generalize context₂.iteration = cursor₂ at cursors
      cases cursors with
      | none => exact .evaluate iterable (.forLoop this item body span) alike heap
      | some _ => exact alike.nextPass heap this item body
  | breakLoops count span =>
      obtain ⟨answer, after⟩ := alike.breakOut count
      exact jumps heap answer after span
  | continueLoop span =>
      obtain ⟨answer, after⟩ := alike.nextLoopPass
      exact jumps heap answer after span
  | returnValue value =>
      cases value with
      | none => exact .done (alike.returnWith .none) heap
      | some value => exact .evaluate value .returnValue alike heap
  | pass => exact .done alike.proceed heap
  | delete name span =>
      unfold Context.beginStatement
      dsimp only
      rw [(heap.members _ _ alike.names).contains name]
      split
      · exact .done alike.proceed (heap.eraseMember alike.names name)
      · exact .failed (.placed (.invalidAccess name) span) alike heap
  | define name parameters body =>
      have made : Function.Alike pairing
          ⟨name, parameters, .script context₁.script body,
            some context₁.evaluation.chain.outermost⟩
          ⟨name, parameters, .script context₂.script body,
            some context₂.evaluation.chain.outermost⟩ :=
        ⟨rfl, rfl, by rw [alike.script], .some alike.evaluation.chain.outermost⟩
      have plain (script : Script) (entry : Option StatementRef)
          (same : FunctionBody.script context₁.script body = .script script entry) :
          script.Plain := by
        cases same
        exact alike.plain
      obtain ⟨function, grown⟩ := heap.newFunction made plain
      exact .done alike.proceed (alike.bind grown name (.function function))
  | record name body span => exact .declare name body span alike heap

/-- What an operator has computed is stored, unless it has failed. -/
theorem stores {answer₁ answer₂ : Except RuntimeCause (Value × Heap)}
    {store₁ store₂ : Heap → Value → Heap}
    (stored : ∀ value₁ value₂ grown₁ grown₂, value₁.Alike pairing value₂ →
      grown₁.Alike pairing grown₂ → (store₁ grown₁ value₁).Alike pairing (store₂ grown₂ value₂))
    (span : Span) : Agree pairing (Left pairing (Value.Alike pairing)) answer₁ answer₂ →
    (match answer₁ with
      | .ok (value, grown) => StatementOutcome.done context₁.proceed (store₁ grown value)
      | .error cause => .failed (.placed cause span) context₁ heap₁).Alike pairing
      (match answer₂ with
        | .ok (value, grown) => StatementOutcome.done context₂.proceed (store₂ grown value)
        | .error cause => .failed (.placed cause span) context₂ heap₂) := by
  intro computed
  cases computed with
  | ok results => exact .done alike.proceed (stored _ _ _ _ results.1 results.2)
  | error causes => exact .failed (.placed causes span) alike heap

theorem deliver {continuation₁ continuation₂ : Continuation}
    (continuation : continuation₁.Alike pairing continuation₂) {value₁ value₂ : Value}
    (value : value₁.Alike pairing value₂) :
    (context₁.deliver heap₁ continuation₁ value₁).Alike pairing
      (context₂.deliver heap₂ continuation₂ value₂) := by
  cases continuation with
  | discard => exact .done alike.proceed heap
  | print line rest =>
      unfold Context.deliver
      dsimp only
      rw [heap.text value]
      cases rest with
      | nil => exact .line _ alike.proceed heap
      | cons next rest => exact .evaluate next (.print _ rest) alike heap
  | assignName name operator span =>
      have combined := @Heap.Alike.combine pairing heap₁ heap₂ heap operator (fun _ => _)
        (fun _ => _) (alike.evaluation.lookup heap name) value₁ value₂ value
      exact alike.stores heap (fun _ _ _ _ stored grown => alike.bind grown name stored) span
        combined
  | assignMemberOf name operator expression span =>
      have references := value.recordRef?
      unfold Context.deliver
      dsimp only
      generalize value₁.recordRef? = reference₁ at references
      generalize value₂.recordRef? = reference₂ at references
      cases references with
      | some paired =>
          exact .evaluate expression (.assignMember paired name operator span) alike heap
      | none => exact .failed (.placed (.nonRecord value) span) alike heap
  | assignMember object name operator span =>
      have combined := @Heap.Alike.combine pairing heap₁ heap₂ heap operator (fun _ => _)
        (fun _ => _) (heap.member object name) value₁ value₂ value
      exact alike.stores heap (fun _ _ _ _ stored grown => grown.setMember object name stored)
        span combined
  | assignElementOf index expression operator span =>
      exact .evaluate index (.assignElementAt value expression operator span) alike heap
  | assignElementAt object expression operator span =>
      exact .evaluate expression (.assignElement object value operator span) alike heap
  | @assignElement object₁ object₂ index₁ index₂ object index operator span =>
      have combined := @Heap.Alike.combine pairing heap₁ heap₂ heap operator (fun _ => _)
        (fun _ => _) (heap.element object index) value₁ value₂ value
      unfold Context.deliver
      dsimp only
      generalize operator.combine heap₁ _ value₁ = combined₁ at combined
      generalize operator.combine heap₂ _ value₂ = combined₂ at combined
      cases combined with
      | error causes => exact .failed (.placed causes span) alike heap
      | @ok stored₁ stored₂ stored =>
          obtain ⟨item₁, grown₁⟩ := stored₁
          obtain ⟨item₂, grown₂⟩ := stored₂
          obtain ⟨item, grown⟩ := stored
          have written := grown.setElement object index item
          dsimp only at item grown written ⊢
          generalize grown₁.setElement object₁ index₁ item₁ = answer₁ at written
          generalize grown₂.setElement object₂ index₂ item₂ = answer₂ at written
          cases written with
          | ok last => exact .done alike.proceed last
          | error causes => exact .failed (.placed causes span) alike grown
  | branch body rest otherwise following =>
      unfold Context.deliver
      dsimp only
      rw [heap.isTruthy value]
      split
      · exact .done (alike.enter body following none none) heap
      · exact alike.tryBranches heap rest otherwise following
  | whileLoop loop body =>
      unfold Context.deliver
      dsimp only
      rw [heap.isTruthy value]
      split
      · exact .done (alike.enterLoopBody loop body) heap
      · exact .done alike.proceed heap
  | forLoop loop item body span =>
      have started := Iteration.alike_start value
      unfold Context.deliver
      dsimp only
      generalize Iteration.start value₁ = iteration₁ at started
      generalize Iteration.start value₂ = iteration₂ at started
      cases started with
      | ok iteration => exact (alike.setIteration (.some iteration)).nextPass heap loop item body
      | error causes => exact .failed (.placed causes span) alike heap
  | returnValue => exact .done (alike.returnWith value) heap

end Context.Alike

/-!
## Sessions
-/

inductive Activity.Alike (pairing : Pairing) : Activity → Activity → Prop where
  | resting : Alike pairing .resting .resting
  | evaluating {continuation₁ continuation₂ : Continuation}
      (continuation : continuation₁.Alike pairing continuation₂) :
      Alike pairing (.evaluating continuation₁) (.evaluating continuation₂)
  | calling {continuation₁ continuation₂ : Continuation} {scope₁ scope₂ : Option Value}
      (continuation : continuation₁.Alike pairing continuation₂)
      (scope : ScopeAlike pairing scope₁ scope₂) (span : Span) :
      Alike pairing (.calling continuation₁ scope₁ span) (.calling continuation₂ scope₂ span)
  | declaring (name : String) (span : Span) :
      Alike pairing (.declaring name span) (.declaring name span)

structure Activation.Alike (pairing : Pairing) (activation₁ activation₂ : Activation) :
    Prop where
  context : activation₁.context.Alike pairing activation₂.context
  activity : activation₁.activity.Alike pairing activation₂.activity

inductive Progress.Alike (pairing : Pairing) : Progress → Progress → Prop where
  | working : Alike pairing .working .working
  | idle : Alike pairing .idle .idle
  | failed {failure₁ failure₂ : RuntimeError} (failure : failure₁.Alike pairing failure₂) :
      Alike pairing (.failed failure₁) (.failed failure₂)
  | endless : Alike pairing .endless .endless

/-- The sessions stand at the same place in the same script. The first one has written
`written`, and then what the second one has. Neither has a time limit; their clocks may
differ. -/
structure Session.Alike (pairing : Pairing) (written : String) (session₁ session₂ : Session) :
    Prop where
  state : session₁.state = session₂.state
  stack : List.Forall₂ (Activation.Alike pairing) session₁.stack session₂.stack
  heap : session₁.heap.Alike pairing session₂.heap
  globals : pairing.records session₁.globals session₂.globals
  output : session₁.output = written ++ session₂.output
  unlimited₁ : session₁.timeLimit = none
  unlimited₂ : session₂.timeLimit = none

/-- What the sessions came to is related, and they are still alike. -/
def Session.LeftAlike {α β : Type} (pairing : Pairing) (written : String) (related : α → β → Prop)
    (left₁ : α × Session) (left₂ : β × Session) : Prop :=
  related left₁.1 left₂.1 ∧ left₁.2.Alike pairing written left₂.2

theorem Function.Alike.checkArity {function₁ function₂ : Function}
    (alike : function₁.Alike pairing function₂) (count : Nat) :
    function₁.checkArity count = function₂.checkArity count := by
  simp only [Function.checkArity, alike.parameters]

theorem alike_getD {value₁ value₂ : Option Value} (value : ScopeAlike pairing value₁ value₂) :
    (value₁.getD .none).Alike pairing (value₂.getD .none) := by
  cases value with
  | none => exact .none
  | some value => exact value

namespace Session

theorem alike_receiverRecord {receiver₁ receiver₂ : Option Value}
    (receiver : ScopeAlike pairing receiver₁ receiver₂) :
    Agree pairing pairing.records (receiverRecord receiver₁) (receiverRecord receiver₂) := by
  cases receiver with
  | none => exact .error .undefinedScope
  | @some value₁ value₂ value =>
      have references := value.recordRef?
      unfold receiverRecord
      dsimp only
      generalize value₁.recordRef? = reference₁ at references
      generalize value₂.recordRef? = reference₂ at references
      cases references with
      | some paired => exact .ok paired
      | none => exact .error (.nonRecord value)

theorem alike_lengthOf (heap : heap₁.Alike pairing heap₂) {value₁ value₂ : Value}
    (value : value₁.Alike pairing value₂) :
    Agree pairing Eq (lengthOf heap₁ value₁) (lengthOf heap₂ value₂) := by
  have refused := Agree.refused (@Eq Nat) (.invalidArgument value)
  cases value with
  | text text => exact .ok rfl
  | array paired => exact .ok (heap.size_array paired)
  | record paired => exact .ok (heap.members _ _ paired).size
  | none | number | bool | function => exact refused

theorem alike_numberOf {value₁ value₂ : Value} (value : value₁.Alike pairing value₂) :
    Agree pairing Eq (numberOf value₁) (numberOf value₂) := by
  have refused := Agree.refused (@Eq Float) (.invalidArgument value)
  cases value with
  | number number => exact .ok rfl
  | bool truth => exact .ok rfl
  | text text =>
      unfold numberOf
      dsimp only
      split
      · exact .ok rfl
      · exact refused
  | none | array | record | function => exact refused

theorem alike_rangeLength {value₁ value₂ : Value} (value : value₁.Alike pairing value₂) :
    Agree pairing Eq (rangeLength value₁) (rangeLength value₂) := by
  have refused := Agree.refused (@Eq Nat) (.invalidArgument value)
  cases value with
  | number number =>
      unfold rangeLength
      dsimp only
      split
      · exact .ok rfl
      · exact refused
  | none | text | bool | array | record | function => exact refused

theorem alike_unwind {failure₁ failure₂ : RuntimeError}
    (failure : failure₁.Alike pairing failure₂) {top₁ top₂ : Activation}
    (top : top₁.Alike pairing top₂) (heap : heap₁.Alike pairing heap₂)
    {below₁ below₂ : List Activation}
    (below : List.Forall₂ (Activation.Alike pairing) below₁ below₂) :
    (unwind failure₁ top₁ heap₁ below₁).1.Alike pairing (unwind failure₂ top₂ heap₂ below₂).1 ∧
      List.Forall₂ (Activation.Alike pairing) (unwind failure₁ top₁ heap₁ below₁).2.1
        (unwind failure₂ top₂ heap₂ below₂).2.1 ∧
      (unwind failure₁ top₁ heap₁ below₁).2.2.Alike pairing
        (unwind failure₂ top₂ heap₂ below₂).2.2 := by
  induction below generalizing failure₁ failure₂ top₁ top₂ heap₁ heap₂ with
  | nil => exact ⟨failure, .cons ⟨top.context, .resting⟩ .nil, heap⟩
  | @cons caller₁ caller₂ rest₁ rest₂ caller rest ih =>
      have rested : List.Forall₂ (Activation.Alike pairing)
          ({ top₁ with activity := .resting } :: caller₁ :: rest₁)
          ({ top₂ with activity := .resting } :: caller₂ :: rest₂) :=
        .cons ⟨top.context, .resting⟩ (.cons caller rest)
      have released := top.context.release heap
      have waits := caller.activity
      unfold unwind
      generalize caller₁.activity = activity₁ at waits
      generalize caller₂.activity = activity₂ at waits
      cases waits with
      | resting => exact ⟨failure, rested, heap⟩
      | evaluating => exact ⟨failure, rested, heap⟩
      | calling _ _ span => exact ih (failure.withDefaultSpan span) caller released
      | declaring => exact ih failure caller released

namespace Alike

variable {written : String} {session₁ session₂ : Session}
  (alike : session₁.Alike pairing written session₂)

include alike

theorem standing {stack₁ stack₂ : List Activation}
    (stack : List.Forall₂ (Activation.Alike pairing) stack₁ stack₂)
    (heap : heap₁.Alike pairing heap₂) :
    Session.Alike pairing written { session₁ with stack := stack₁, heap := heap₁ }
      { session₂ with stack := stack₂, heap := heap₂ } :=
  { alike with stack, heap }

theorem withHeap (heap : heap₁.Alike pairing heap₂) :
    Session.Alike pairing written { session₁ with heap := heap₁ }
      { session₂ with heap := heap₂ } :=
  { alike with heap }

theorem writeLine (text : String) :
    (session₁.writeLine text).Alike pairing written (session₂.writeLine text) := by
  refine { alike with output := ?_ }
  simp only [Session.writeLine, alike.output, String.append_assoc]

theorem suspend (suspended : Bool) :
    (session₁.suspend suspended).Alike pairing written (session₂.suspend suspended) := by
  unfold Session.suspend
  rw [alike.state]
  split
  · exact { alike with state := rfl }
  · exact { alike with state := rfl }
  · exact alike

theorem modifyContext {change₁ change₂ : Context → Context}
    (changed : ∀ context₁ context₂, context₁.Alike pairing context₂ →
      (change₁ context₁).Alike pairing (change₂ context₂)) :
    (session₁.modifyContext change₁).Alike pairing written (session₂.modifyContext change₂) := by
  have stack := alike.stack
  unfold Session.modifyContext
  generalize session₁.stack = stack₁ at stack
  generalize session₂.stack = stack₂ at stack
  cases stack with
  | nil => exact alike
  | cons top below =>
      exact { alike with stack := .cons ⟨changed _ _ top.context, top.activity⟩ below }

/-!
### Native functions
-/

theorem newArrayValue {items₁ items₂ : List Value}
    (items : List.Forall₂ (Value.Alike pairing) items₁ items₂) :
    LeftAlike pairing written (Value.Alike pairing) (session₁.newArrayValue items₁)
      (session₂.newArrayValue items₂) := by
  obtain ⟨made, grown⟩ := alike.heap.newList items
  exact ⟨.array made, alike.withHeap grown⟩

theorem newTexts (names : List String) :
    LeftAlike pairing written (Value.Alike pairing)
      (session₁.newArrayValue (names.map Value.text))
      (session₂.newArrayValue (names.map Value.text)) := by
  have texts (name : String) : (Value.text name).Plain := trivial
  obtain ⟨made, grown⟩ := alike.heap.newPlain names texts
  exact ⟨.array made, alike.withHeap grown⟩

theorem namespaces : List.Forall₂ pairing.records session₁.namespaces session₂.namespaces := by
  have stack := alike.stack
  unfold Session.namespaces Session.context?
  generalize session₁.stack = stack₁ at stack
  generalize session₂.stack = stack₂ at stack
  cases stack with
  | nil => exact .cons alike.globals .nil
  | cons top _ => exact top.context.visible

theorem namespaceValues {namespaces₁ namespaces₂ : List RecordRef}
    (namespaces : List.Forall₂ pairing.records namespaces₁ namespaces₂) :
    LeftAlike pairing written (List.Forall₂ (Value.Alike pairing))
      (session₁.namespaceValues namespaces₁) (session₂.namespaceValues namespaces₂) := by
  induction namespaces generalizing session₁ session₂ with
  | nil => exact ⟨.nil, alike⟩
  | @cons reference₁ reference₂ rest₁ rest₂ paired rest ih =>
      have global := Relator.rel_eq pairing.recordsUnique paired alike.globals
      have here : LeftAlike pairing written (Value.Alike pairing)
          (if reference₁ = session₁.globals then (.text "globals", session₁)
          else session₁.newArrayValue ((session₁.heap.record reference₁).names.map Value.text))
          (if reference₂ = session₂.globals then (.text "globals", session₂)
          else
            session₂.newArrayValue ((session₂.heap.record reference₂).names.map Value.text)) := by
        simp only [global, (alike.heap.members _ _ paired).names]
        split
        · exact ⟨.text _, alike⟩
        · exact alike.newTexts _
      unfold Session.namespaceValues
      dsimp only
      generalize (if reference₁ = session₁.globals then _ else _) = answer₁ at here
      generalize (if reference₂ = session₂.globals then _ else _) = answer₂ at here
      obtain ⟨value, after⟩ := here
      obtain ⟨values, last⟩ := ih after
      exact ⟨.cons value values, last⟩

theorem report {arguments₁ arguments₂ : List Value}
    (arguments : List.Forall₂ (Value.Alike pairing) arguments₁ arguments₂)
    {receiver₁ receiver₂ : Option Value} (receiver : ScopeAlike pairing receiver₁ receiver₂) :
    LeftAlike pairing written (Value.Alike pairing) (session₁.report arguments₁ receiver₁)
      (session₂.report arguments₂ receiver₂) := by
  have listed := alike.namespaceValues alike.namespaces
  have tag := alike_getD (rel_getElem? arguments 0)
  have last := alike_getD (rel_getElem? arguments 7)
  simp only [Session.report, List.head?_eq_getElem?, arguments.length_eq]
  generalize session₁.namespaceValues session₁.namespaces = answer₁ at listed ⊢
  generalize session₂.namespaceValues session₂.namespaces = answer₂ at listed ⊢
  obtain ⟨namespaces₁, listed₁⟩ := answer₁
  obtain ⟨namespaces₂, listed₂⟩ := answer₂
  obtain ⟨namespaces, listed⟩ := listed
  have shown := listed.newArrayValue namespaces
  dsimp only at shown ⊢
  generalize listed₁.newArrayValue namespaces₁ = answer₁ at shown ⊢
  generalize listed₂.newArrayValue namespaces₂ = answer₂ at shown ⊢
  obtain ⟨visible₁, shown₁⟩ := answer₁
  obtain ⟨visible₂, shown₂⟩ := answer₂
  obtain ⟨visible, shown⟩ := shown
  have depths : shown₁.depth = shown₂.depth := shown.stack.length_eq
  dsimp only at visible ⊢
  rw [depths]
  obtain ⟨line, made⟩ := shown.newArrayValue
    (.cons tag (.cons (.number (Float.ofNat shown₂.depth)) (.cons visible
      (.cons (.number (Float.ofNat arguments₂.length)) (.cons last .nil)))))
  rw [made.heap.text line]
  exact ⟨alike_getD receiver, made.writeLine _⟩

/-- Apart from the clock, a native function does the same in both sessions. -/
theorem runNative {action : NativeAction} (timeless : action ≠ .clock)
    {arguments₁ arguments₂ : List Value}
    (arguments : List.Forall₂ (Value.Alike pairing) arguments₁ arguments₂)
    {receiver₁ receiver₂ : Option Value} (receiver : ScopeAlike pairing receiver₁ receiver₂) :
    LeftAlike pairing written (Agree pairing (Value.Alike pairing))
      (session₁.runNative action arguments₁ receiver₁)
      (session₂.runNative action arguments₂ receiver₂) := by
  have argument := alike_getD (rel_getElem? arguments 0)
  rw [← List.head?_eq_getElem?, ← List.head?_eq_getElem?] at argument
  have references := alike_receiverRecord receiver
  cases action with
  | clock => exact absurd rfl timeless
  | length =>
      refine ⟨(alike_lengthOf alike.heap argument).map ?_, alike⟩
      rintro length _ rfl
      exact .number _
  | typeName =>
      simp only [Session.runNative, argument.typeName]
      exact ⟨.ok (.text _), alike⟩
  | text =>
      simp only [Session.runNative, alike.heap.text argument]
      exact ⟨.ok (.text _), alike⟩
  | number =>
      refine ⟨(alike_numberOf argument).map ?_, alike⟩
      rintro number _ rfl
      exact .number _
  | range =>
      have lengths := alike_rangeLength argument
      unfold Session.runNative
      dsimp only
      generalize rangeLength _ = length₁ at lengths
      generalize rangeLength _ = length₂ at lengths
      cases lengths with
      | error causes => exact ⟨.error causes, alike⟩
      | ok same =>
          subst same
          have numbers (index : Nat) : (Value.number (Float.ofNat index)).Plain := trivial
          obtain ⟨made, grown⟩ := alike.heap.newPlain (List.range _) numbers
          exact ⟨.ok (.array made), alike.withHeap grown⟩
  | memberNames =>
      unfold Session.runNative
      dsimp only
      generalize receiverRecord receiver₁ = record₁ at references
      generalize receiverRecord receiver₂ = record₂ at references
      cases references with
      | error causes => exact ⟨.error causes, alike⟩
      | ok paired =>
          dsimp only
          rw [(alike.heap.members _ _ paired).names]
          obtain ⟨made, after⟩ := alike.newTexts (session₂.heap.record _).names
          exact ⟨.ok made, after⟩
  | hasMember =>
      have refused : LeftAlike pairing written (Agree pairing (Value.Alike pairing))
          (.error (.invalidArgument (arguments₁.head?.getD .none)), session₁)
          (.error (.invalidArgument (arguments₂.head?.getD .none)), session₂) :=
        ⟨.error (.invalidArgument argument), alike⟩
      unfold Session.runNative
      dsimp only
      generalize arguments₁.head?.getD .none = value₁ at argument refused ⊢
      generalize arguments₂.head?.getD .none = value₂ at argument refused ⊢
      cases argument with
      | text name =>
          refine ⟨references.map fun record₁ record₂ paired => ?_, alike⟩
          have found := alike.heap.lookup paired name
          generalize session₁.heap.lookup record₁ name = found₁ at found
          generalize session₂.heap.lookup record₂ name = found₂ at found
          cases found <;> exact .bool _
      | none | number | bool | array | record | function => exact refused
  | rest => exact ⟨.ok .none, alike⟩
  | suspend => exact ⟨.ok .none, alike.suspend true⟩
  | report =>
      obtain ⟨value, after⟩ := alike.report arguments receiver
      exact ⟨.ok value, after⟩

/-!
### Turns
-/

theorem callContext {script : Script} (plain : script.Plain) (entry : Option StatementRef)
    (parameters : List String) {globals₁ globals₂ : Option RecordRef}
    (globals : Option.Rel pairing.records globals₁ globals₂) {arguments₁ arguments₂ : List Value}
    (arguments : List.Forall₂ (Value.Alike pairing) arguments₁ arguments₂)
    {receiver₁ receiver₂ : Option Value} (receiver : ScopeAlike pairing receiver₁ receiver₂) :
    LeftAlike pairing written (Context.Alike pairing)
      (session₁.callContext script entry parameters globals₁ arguments₁ receiver₁)
      (session₂.callContext script entry parameters globals₂ arguments₂ receiver₂) := by
  obtain ⟨locals, opened⟩ := alike.heap.newRecord
  have bound := opened.bindParameters locals parameters arguments
  have outer : pairing.records (globals₁.getD session₁.globals)
      (globals₂.getD session₂.globals) := by
    cases globals with
    | none => exact alike.globals
    | some paired => exact paired
  refine ⟨(Context.alike_functionCall plain locals outer).enter entry none none none, ?_⟩
  cases receiver with
  | none => exact alike.withHeap bound
  | some value => exact alike.withHeap (bound.setMember locals selfName value)

theorem raise {failure₁ failure₂ : RuntimeError} (failure : failure₁.Alike pairing failure₂)
    {top₁ top₂ : Activation} (top : top₁.Alike pairing top₂) {below₁ below₂ : List Activation}
    (below : List.Forall₂ (Activation.Alike pairing) below₁ below₂) :
    LeftAlike pairing written (Progress.Alike pairing) (session₁.raise failure₁ top₁ below₁)
      (session₂.raise failure₂ top₂ below₂) := by
  obtain ⟨raised, stack, heap⟩ := alike_unwind failure top alike.heap below
  exact ⟨.failed raised, alike.standing stack heap⟩

theorem settleStatement {outcome₁ outcome₂ : StatementOutcome}
    (outcome : outcome₁.Alike pairing outcome₂) {below₁ below₂ : List Activation}
    (below : List.Forall₂ (Activation.Alike pairing) below₁ below₂) :
    LeftAlike pairing written (Progress.Alike pairing) (session₁.settleStatement outcome₁ below₁)
      (session₂.settleStatement outcome₂ below₂) := by
  cases outcome with
  | done context heap => exact ⟨.working, alike.standing (.cons ⟨context, .resting⟩ below) heap⟩
  | line text context heap =>
      exact ⟨.working,
        (alike.standing (.cons ⟨context, .resting⟩ below) heap).writeLine text⟩
  | evaluate expression continuation context heap =>
      have begun := context.withEvaluation (context.evaluation.begin expression)
      exact ⟨.working, alike.standing (.cons ⟨begun, .evaluating continuation⟩ below) heap⟩
  | declare name body span context heap =>
      obtain ⟨members, grown⟩ := heap.newRecord
      have block := (Context.alike_block context.plain members context.visible).enter body none
        none none
      unfold Session.settleStatement
      dsimp only
      rw [← context.script]
      exact ⟨.working, alike.standing (.cons ⟨block, .resting⟩
        (.cons ⟨context, .declaring name span⟩ below)) grown⟩
  | failed failure context heap =>
      exact (alike.withHeap heap).raise failure ⟨context, .resting⟩ below

theorem beginCall {request₁ request₂ : CallRequest} (request : request₁.Alike pairing request₂)
    (timeless : request₁.asksTime session₁.heap = false) {scope₁ scope₂ : Option Value}
    (scope : ScopeAlike pairing scope₁ scope₂) {context₁ context₂ : Context}
    (context : context₁.Alike pairing context₂) {continuation₁ continuation₂ : Continuation}
    (continuation : continuation₁.Alike pairing continuation₂) {below₁ below₂ : List Activation}
    (below : List.Forall₂ (Activation.Alike pairing) below₁ below₂) :
    LeftAlike pairing written (Progress.Alike pairing)
      (session₁.beginCall request₁ scope₁ context₁ continuation₁ below₁)
      (session₂.beginCall request₂ scope₂ context₂ continuation₂ below₂) := by
  have function := alike.heap.functions _ _ request.function
  have top : Activation.Alike pairing ⟨context₁, .evaluating continuation₁⟩
      ⟨context₂, .evaluating continuation₂⟩ := ⟨context, .evaluating continuation⟩
  unfold CallRequest.asksTime at timeless
  unfold Session.beginCall
  dsimp only
  rw [← request.span, ← request.arguments.length_eq, ← function.checkArity, ← function.body,
    ← function.parameters]
  split
  · next cause refused =>
      have causes : cause.Alike pairing cause := by
        unfold Function.checkArity at refused
        split at refused
        · cases refused
        · cases refused
          exact .invalidArgumentCount _ _
      exact alike.raise (.placed causes request₁.span) top below
  · next fits =>
      cases body : (session₁.heap.function request₁.function).body with
      | script script entry =>
          have plain := alike.heap.plain request₁.function script entry body
          obtain ⟨callee, after⟩ := alike.callContext plain entry
            (session₁.heap.function request₁.function).parameters function.globals
            request.arguments request.receiver
          exact ⟨.working, { after with
            stack := .cons ⟨callee, .resting⟩
              (.cons ⟨context, .calling continuation scope request₁.span⟩ below) }⟩
      | native action =>
          have other : action ≠ .clock := by
            rintro rfl
            rw [body] at timeless
            simp only [fits] at timeless
            cases timeless
          have pushed := alike.standing (.cons top below) alike.heap
          have ran := pushed.runNative other request.arguments request.receiver
          dsimp only at ran ⊢
          generalize Session.runNative _ action request₁.arguments _ = answer₁ at ran ⊢
          generalize Session.runNative _ action request₂.arguments _ = answer₂ at ran ⊢
          obtain ⟨answer₁, after₁⟩ := answer₁
          obtain ⟨answer₂, after₂⟩ := answer₂
          obtain ⟨answer, after⟩ := ran
          dsimp only at answer after
          cases answer with
          | ok value =>
              have resumed {context₁ context₂ : Context}
                  (context : context₁.Alike pairing context₂) :=
                context.withEvaluation (context.evaluation.pushResult value scope)
              exact ⟨.working, after.modifyContext fun _ _ => resumed⟩
          | error causes => exact after.raise (.placed causes request₁.span) top below

theorem complete {top₁ top₂ : Context} (top : top₁.Alike pairing top₂)
    {caller₁ caller₂ : Activation} (caller : caller₁.Alike pairing caller₂)
    {below₁ below₂ : List Activation}
    (below : List.Forall₂ (Activation.Alike pairing) below₁ below₂) :
    LeftAlike pairing written (Progress.Alike pairing) (session₁.complete top₁ caller₁ below₁)
      (session₂.complete top₂ caller₂ below₂) := by
  obtain ⟨context₁, activity₁⟩ := caller₁
  obtain ⟨context₂, activity₂⟩ := caller₂
  obtain ⟨context, activity⟩ := caller
  dsimp only at context activity
  have released := top.release alike.heap
  cases activity with
  | resting => exact ⟨.idle, alike⟩
  | evaluating => exact ⟨.idle, alike⟩
  | calling continuation scope span =>
      have resumed := context.withEvaluation
        (context.evaluation.pushResult (alike_getD top.returned) scope)
      exact ⟨.working,
        alike.standing (.cons ⟨resumed, .evaluating continuation⟩ below) released⟩
  | declaring name span =>
      unfold Session.complete Context.takeNames
      dsimp only
      rw [top.ownsNames]
      cases top₂.ownsNames with
      | true =>
          exact ⟨.working, alike.standing (.cons ⟨context.proceed, .resting⟩ below)
            (context.bind alike.heap name (.record top.names))⟩
      | false =>
          exact (alike.withHeap released).raise (.placed .borrowedNamespace span)
            ⟨context, .resting⟩ below

theorem beginNext {top₁ top₂ : Activation} (top : top₁.Alike pairing top₂)
    {below₁ below₂ : List Activation}
    (below : List.Forall₂ (Activation.Alike pairing) below₁ below₂) :
    LeftAlike pairing written (Progress.Alike pairing) (session₁.beginNext top₁ below₁)
      (session₂.beginNext top₂ below₂) := by
  unfold Session.beginNext
  rw [top.context.current, top.context.script]
  split
  · cases below with
    | nil => exact ⟨.idle, alike⟩
    | cons caller rest => exact alike.complete top.context caller rest
  · next this _ =>
      cases found : top₂.context.script.statement? this with
      | none =>
          exact ⟨.working,
            alike.standing (.cons ⟨top.context.proceed, .resting⟩ below) alike.heap⟩
      | some statement =>
          exact alike.settleStatement (top.context.beginStatement alike.heap this statement) below

/-- A turn that does not look at the clock leaves the sessions alike. -/
theorem advance (timeless : session₁.callsClock = false) :
    LeftAlike pairing written (Progress.Alike pairing) session₁.advance session₂.advance := by
  have later {stack₁ stack₂ : List Activation}
      (stack : List.Forall₂ (Activation.Alike pairing) stack₁ stack₂) :
      Session.Alike pairing written
        { session₁ with stack := stack₁, now := session₁.now + 1 }
        { session₂ with stack := stack₂, now := session₂.now + 1 } := { alike with stack }
  have untimed₁ := @isOverdue_of_unlimited { session₁ with now := session₁.now + 1 }
    alike.unlimited₁
  have untimed₂ := @isOverdue_of_unlimited { session₂ with now := session₂.now + 1 }
    alike.unlimited₂
  have stack := alike.stack
  unfold Session.callsClock at timeless
  unfold Session.advance
  dsimp only
  rw [untimed₁, untimed₂]
  generalize session₁.stack = stack₁ at stack timeless
  generalize session₂.stack = stack₂ at stack
  cases stack with
  | nil => exact ⟨.idle, later .nil⟩
  | @cons top₁ top₂ below₁ below₂ top below =>
      obtain ⟨context₁, activity₁⟩ := top₁
      obtain ⟨context₂, activity₂⟩ := top₂
      obtain ⟨context, activity⟩ := top
      dsimp only at context activity
      cases activity with
      | calling => exact ⟨.idle, alike⟩
      | declaring => exact ⟨.idle, alike⟩
      | resting =>
          have rested : Activation.Alike pairing ⟨context₁, .resting⟩ ⟨context₂, .resting⟩ :=
            ⟨context, .resting⟩
          exact (later (.cons rested below)).beginNext rested below
      | evaluating continuation =>
          have evaluated := context.evaluation.advance alike.heap
          dsimp only at timeless ⊢
          generalize context₁.evaluation.advance session₁.heap = answer₁ at evaluated timeless ⊢
          generalize context₂.evaluation.advance session₂.heap = answer₂ at evaluated ⊢
          obtain ⟨turn₁, after₁, grown₁⟩ := answer₁
          obtain ⟨turn₂, after₂, grown₂⟩ := answer₂
          obtain ⟨turn, after, grown⟩ := evaluated
          dsimp only at turn after grown
          have here := context.withEvaluation after
          have beside := alike.withHeap grown
          cases turn with
          | working =>
              exact ⟨.working,
                alike.standing (.cons ⟨here, .evaluating continuation⟩ below) grown⟩
          | call request scope =>
              exact beside.beginCall request timeless scope here continuation below
          | finished value =>
              exact beside.settleStatement (here.deliver grown continuation value) below
          | failed failure => exact beside.raise failure ⟨here, .evaluating continuation⟩ below
          | endless => exact ⟨.endless, alike⟩

end Alike

end Session

end ScriptEngine
