import ScriptEngine.Proofs.Control.Among

/-!
# Which records a session refers to, and which ones a turn writes to

If all records that the values of a session are belong to a set, then a turn changes no
record outside of this set but the names of the context that runs, and those that a
context which is over leaves behind (`Session.Turned`). Afterwards the values are still
in the set, if the record is that a finished block hands over.
-/

set_option autoImplicit false

namespace ScriptEngine

variable {records : RecordRef → Prop}

/-- The values that a statement has already got are among the records. -/
def Continuation.Among (records : RecordRef → Prop) : Continuation → Prop
  | .assignMember object _ _ _ => records object
  | .assignElementAt object _ _ _ => object.Among records
  | .assignElement object index _ _ => object.Among records ∧ index.Among records
  | _ => True

def Activity.Among (records : RecordRef → Prop) : Activity → Prop
  | .resting => True
  | .evaluating continuation => continuation.Among records
  | .calling continuation scope _ => continuation.Among records ∧ ScopeAmong records scope
  | .declaring _ _ => True

structure Activation.Among (records : RecordRef → Prop) (activation : Activation) : Prop where
  context : activation.context.Among records
  activity : activation.activity.Among records

/-- All values that the session holds are among the records. -/
structure Session.Among (records : RecordRef → Prop) (session : Session) : Prop where
  heap : session.heap.Among records
  stack : ∀ activation ∈ session.stack, activation.Among records

/-!
## Statements
-/

/-- How a statement goes on: in the same scope, with values among the records, and
without a change to any record but the names of the context and those among the records. -/
structure Context.Goes (records : RecordRef → Prop) (heap : Heap) (origin context : Context)
    (grown : Heap) : Prop where
  scope : origin.KeepsScope context
  contextAmong : context.Among records
  heapAmong : grown.Among records
  writes : heap.Writes (fun reference => records reference ∨ reference = origin.names) grown

/-- What a statement came to. One that fails has changed no record. -/
def StatementOutcome.Goes (records : RecordRef → Prop) (heap : Heap) (origin : Context) :
    StatementOutcome → Prop
  | .done context grown => origin.Goes records heap context grown
  | .line _ context grown => origin.Goes records heap context grown
  | .evaluate _ continuation context grown =>
      origin.Goes records heap context grown ∧ continuation.Among records
  | .declare _ _ _ context grown => origin.Goes records heap context grown
  | .failed _ context grown =>
      origin.KeepsScope context ∧ context.Among records ∧ grown.Among records ∧
        grown.records = heap.records

/-- What a statement came to after the evaluation of an expression, seen from before. -/
theorem StatementOutcome.Goes.behind {heap grown : Heap} {origin context : Context}
    {outcome : StatementOutcome} (goes : outcome.Goes records grown context)
    (scope : origin.KeepsScope context) (same : grown.records = heap.records) :
    outcome.Goes records heap origin := by
  have names : context.names = origin.names := congrArg ScopeChain.names scope.place.chain
  have behind {after : Context} {last : Heap} (goes : context.Goes records grown after last) :
      origin.Goes records heap after last :=
    ⟨scope.trans goes.scope, goes.contextAmong, goes.heapAmong,
      (Heap.Writes.of_records same).trans (names ▸ goes.writes)⟩
  cases outcome with
  | done after last | line _ after last => exact behind goes
  | evaluate _ _ after last => exact ⟨behind goes.1, goes.2⟩
  | declare _ _ _ after last => exact behind goes
  | failed _ after last =>
      obtain ⟨kept, among, lastAmong, unchanged⟩ := goes
      exact ⟨scope.trans kept, among, lastAmong, unchanged.trans same⟩

namespace Context

section

variable {context : Context} {heap : Heap} (among : context.Among records)
  (heapAmong : heap.Among records)

include among heapAmong

omit among in
theorem goes_to {after : Context} (scope : context.KeepsScope after)
    (afterAmong : after.Among records) : context.Goes records heap after heap :=
  ⟨scope, afterAmong, heapAmong, .refl heap⟩

theorem goes_proceed : context.Goes records heap context.proceed heap :=
  goes_to heapAmong context.keepsScope_proceed among.proceed

theorem goes_refused {failure : RuntimeError} :
    (StatementOutcome.failed failure context heap).Goes records heap context :=
  ⟨.refl _, among, heapAmong, rfl⟩

theorem goes_evaluate (expression : ExpressionRef) {continuation : Continuation}
    (continuationAmong : continuation.Among records) :
    (StatementOutcome.evaluate expression continuation context heap).Goes records heap context :=
  ⟨goes_to heapAmong (.refl _) among, continuationAmong⟩

omit heapAmong in
/-- A value is bound in a record that the statement may write to. -/
theorem goes_bound {grown : Heap} (grownAmong : grown.Among records)
    (same : grown.records = heap.records) {target : RecordRef}
    (allowed : records target ∨ target = context.names) (name : String) {stored : Value}
    (storedAmong : stored.Among records) :
    context.Goes records heap context.proceed (grown.setMember target name stored) where
  scope := context.keepsScope_proceed
  contextAmong := among.proceed
  heapAmong := grownAmong.setMember storedAmong
  writes := (Heap.Writes.of_records same).trans (.modifyRecord grown _ allowed)

theorem goes_tryBranches (branches : List (ExpressionRef × Option StatementRef))
    (otherwise : Option (Option StatementRef)) (following : Option StatementRef) :
    (context.tryBranches heap branches otherwise following).Goes records heap context := by
  cases branches with
  | cons branch rest => exact goes_evaluate among heapAmong _ trivial
  | nil =>
      cases otherwise with
      | some body =>
          exact goes_to heapAmong (context.keepsScope_enter body following none none)
            (among.enter _ _ _ _)
      | none => exact goes_proceed among heapAmong

/-- The next pass of a loop over the values of a cursor, which the context has or gets. -/
theorem goes_nextPass {origin : Context} (scope : origin.KeepsScope context)
    (loop : StatementRef) (item : String) (body : Option StatementRef) :
    (context.nextPass heap loop item body).Goes records heap origin := by
  unfold nextPass
  split
  · next value iteration found =>
      obtain ⟨cursor, current, next⟩ := Option.bind_eq_some_iff.mp found
      have source := among.iteration cursor current
      unfold Iteration.next at next
      obtain ⟨held, read, same⟩ := Option.map_eq_some_iff.mp next
      obtain ⟨rfl, rfl⟩ := Prod.mk.inj same
      have moved := among.setIteration (some { cursor with position := cursor.position + 1 })
        (by rintro _ ⟨⟩; exact source)
      exact {
        scope := (scope.trans (context.keepsScope_setIteration _)).trans
          (keepsScope_enterLoopBody _ loop body)
        contextAmong := moved.enter _ _ _ _
        heapAmong := heapAmong.setMember (heapAmong.itemAt read)
        writes := .modifyRecord heap _ (.inr (congrArg ScopeChain.names scope.place.chain)) }
  · exact {
      scope := (scope.trans (context.keepsScope_setIteration none)).trans (keepsScope_proceed _)
      contextAmong := (among.setIteration none fun _ member => nomatch member).proceed
      heapAmong
      writes := .refl heap }

theorem goes_beginStatement (this : StatementRef) (statement : Statement) :
    (context.beginStatement heap this statement).Goes records heap context := by
  cases statement with
  | expression expression => exact goes_evaluate among heapAmong _ trivial
  | print values =>
      cases values with
      | nil => exact goes_proceed among heapAmong
      | cons first rest => exact goes_evaluate among heapAmong _ trivial
  | assign target operator value span =>
      cases target <;> exact goes_evaluate among heapAmong _ trivial
  | branch branches otherwise => exact goes_tryBranches among heapAmong _ _ _
  | whileLoop condition body => exact goes_evaluate among heapAmong _ trivial
  | forLoop item iterable body span =>
      unfold beginStatement
      dsimp only
      split
      · exact goes_nextPass among heapAmong (.refl _) _ _ _
      · exact goes_evaluate among heapAmong _ trivial
  | breakLoops count span =>
      have scope := context.keepsScope_breakOut count
      have left := among.breakOut count
      unfold beginStatement
      dsimp only
      generalize context.breakOut count = answer at scope left
      obtain ⟨answer, after⟩ := answer
      cases answer with
      | ok _ => exact goes_to heapAmong scope left
      | error failure => exact ⟨scope, left, heapAmong, rfl⟩
  | continueLoop span =>
      have scope := context.keepsScope_nextLoopPass
      have left := among.nextLoopPass
      unfold beginStatement
      dsimp only
      generalize context.nextLoopPass = answer at scope left
      obtain ⟨answer, after⟩ := answer
      cases answer with
      | ok _ => exact goes_to heapAmong scope left
      | error failure => exact ⟨scope, left, heapAmong, rfl⟩
  | returnValue value =>
      cases value with
      | none =>
          exact goes_to heapAmong (context.keepsScope_returnWith .none)
            (among.returnWith trivial)
      | some value => exact goes_evaluate among heapAmong _ trivial
  | pass => exact goes_proceed among heapAmong
  | delete name span =>
      unfold beginStatement
      dsimp only
      split
      · exact {
          scope := context.keepsScope_proceed
          contextAmong := among.proceed
          heapAmong := heapAmong.eraseMember _ _
          writes := .modifyRecord heap _ (.inr rfl) }
      · exact goes_refused among heapAmong
  | define name parameters body =>
      have defined : (heap.newFunction ⟨name, parameters, .script context.script body,
          some context.evaluation.chain.outermost⟩).2.Among records := by
        refine heapAmong.newFunction ?_
        rintro script entry ⟨⟩
        exact among.evaluation.script
      have kept : (heap.newFunction ⟨name, parameters, .script context.script body,
          some context.evaluation.chain.outermost⟩).2.records = heap.records := rfl
      exact goes_bound among defined kept (.inr rfl) name trivial
  | record name body span => exact goes_to heapAmong (.refl _) among

theorem goes_deliver {continuation : Continuation} (continuationAmong : continuation.Among records)
    {value : Value} (valueAmong : value.Among records) :
    (context.deliver heap continuation value).Goes records heap context := by
  cases continuation with
  | discard => exact goes_proceed among heapAmong
  | print line rest =>
      cases rest with
      | nil => exact goes_proceed among heapAmong
      | cons next rest => exact goes_evaluate among heapAmong _ trivial
  | assignName name operator span =>
      simp only [deliver]
      split
      · next stored grown combined =>
          obtain ⟨storedAmong, grownAmong⟩ := heapAmong.combine valueAmong combined
          exact goes_bound among grownAmong (AssignOperator.keepsObjects_combine combined).records
            (.inr rfl) name storedAmong
      · exact goes_refused among heapAmong
  | assignMemberOf name operator expression span =>
      simp only [deliver]
      split
      · next object same => exact goes_evaluate among heapAmong _ (valueAmong.recordRef? same)
      · exact goes_refused among heapAmong
  | assignMember object name operator span =>
      simp only [deliver]
      split
      · next stored grown combined =>
          obtain ⟨storedAmong, grownAmong⟩ := heapAmong.combine valueAmong combined
          exact goes_bound among grownAmong (AssignOperator.keepsObjects_combine combined).records
            (.inl continuationAmong) name storedAmong
      · exact goes_refused among heapAmong
  | assignElementOf index expression operator span =>
      exact goes_evaluate among heapAmong _ valueAmong
  | assignElementAt object expression operator span =>
      exact goes_evaluate among heapAmong _ ⟨continuationAmong, valueAmong⟩
  | assignElement object index operator span =>
      simp only [deliver]
      split
      · next stored grown combined =>
          obtain ⟨storedAmong, grownAmong⟩ := heapAmong.combine valueAmong combined
          have kept : grown.records = heap.records :=
            (AssignOperator.keepsObjects_combine combined).records
          split
          · next written same =>
              obtain ⟨writtenAmong, writes⟩ :=
                grownAmong.setElement continuationAmong.1 storedAmong same
              exact {
                scope := context.keepsScope_proceed
                contextAmong := among.proceed
                heapAmong := writtenAmong
                writes := (Heap.Writes.of_records kept).trans (writes.mono fun _ => .inl) }
          · exact ⟨.refl _, among, grownAmong, kept⟩
      · exact goes_refused among heapAmong
  | branch body rest otherwise following =>
      simp only [deliver]
      split
      · exact goes_to heapAmong (context.keepsScope_enter _ _ _ _) (among.enter _ _ _ _)
      · exact goes_tryBranches among heapAmong _ _ _
  | whileLoop loop body =>
      simp only [deliver]
      split
      · exact goes_to heapAmong (context.keepsScope_enterLoopBody loop body)
          (among.enter _ _ _ _)
      · exact goes_proceed among heapAmong
  | forLoop loop item body span =>
      simp only [deliver]
      split
      · next iteration started =>
          have source : iteration.source.Among records := by
            unfold Iteration.start at started
            split at started <;> cases started <;> exact valueAmong
          refine goes_nextPass (among.setIteration (some iteration) ?_) heapAmong
            (context.keepsScope_setIteration _) _ _ _
          rintro _ ⟨⟩
          exact source
      · exact goes_refused among heapAmong
  | returnValue =>
      exact goes_to heapAmong (context.keepsScope_returnWith _) (among.returnWith valueAmong)

end

end Context

/-!
## Native functions
-/

namespace Session

/-- What a native function gives is among the records, and it changes none of them. -/
structure NativeAmong (records : RecordRef → Prop) (before after : Session)
    (answer : Except RuntimeCause Value) : Prop where
  value : ∀ value, answer = .ok value → value.Among records
  heap : after.heap.Among records
  kept : after.heap.records = before.heap.records

namespace NativeAmong

variable {session : Session} (among : session.heap.Among records)

include among

/-- The answer refers to nothing. -/
theorem plain {answer : Except RuntimeCause Value}
    (plain : ∀ value, answer = .ok value → value.Plain) :
    session.NativeAmong records session answer where
  value value same := (plain value same).among
  heap := among
  kept := rfl

/-- The answer, if there is one, is computed from something that is no value. -/
theorem map {α : Type} (answer : Except RuntimeCause α) {result : α → Value}
    (plainResult : ∀ given, (result given).Plain) :
    session.NativeAmong records session (answer.map result) := by
  refine plain among fun value same => ?_
  cases answer with
  | error cause => cases same
  | ok given =>
      cases same
      exact plainResult given

/-- The answer is made of a new array of items that refer to nothing. -/
theorem array {answer : Value} (answerAmong : answer.Among records) {α : Type} (given : List α)
    {item : α → Value} (plainItem : ∀ one, (item one).Plain) :
    session.NativeAmong records (session.newArrayValue (given.map item)).2 (.ok answer) where
  value value same := by
    cases same
    exact answerAmong
  heap := by
    refine among.newArray fun value member => ?_
    obtain ⟨one, _, rfl⟩ := List.mem_map.mp (List.mem_toArray.mp member)
    exact (plainItem one).among
  kept := rfl

end NativeAmong

theorem among_newTexts {session : Session} (among : session.heap.Among records)
    (names : List String) :
    (session.newArrayValue (names.map Value.text)).2.heap.Among records := by
  refine among.newArray fun item member => ?_
  obtain ⟨name, _, rfl⟩ := List.mem_map.mp (List.mem_toArray.mp member)
  trivial

theorem among_namespaceValues {session : Session} (among : session.heap.Among records)
    (namespaces : List RecordRef) :
    (∀ value ∈ (session.namespaceValues namespaces).1, value.Among records) ∧
      (session.namespaceValues namespaces).2.heap.Among records ∧
      (session.namespaceValues namespaces).2.heap.records = session.heap.records := by
  induction namespaces generalizing session with
  | nil => exact ⟨List.forall_mem_nil _, among, rfl⟩
  | cons reference rest ih =>
      simp only [namespaceValues]
      split
      · obtain ⟨values, grown, kept⟩ := ih among
        exact ⟨List.forall_mem_cons.mpr ⟨trivial, values⟩, grown, kept⟩
      · obtain ⟨values, grown, kept⟩ := ih
          (among_newTexts among (session.heap.record reference).names)
        exact ⟨List.forall_mem_cons.mpr ⟨trivial, values⟩, grown, kept⟩

theorem among_report {session : Session} (among : session.heap.Among records)
    {arguments : List Value} (argumentsAmong : ∀ argument ∈ arguments, argument.Among records)
    {receiver : Option Value} (receiverAmong : ScopeAmong records receiver) :
    (session.report arguments receiver).1.Among records ∧
      (session.report arguments receiver).2.heap.Among records ∧
      (session.report arguments receiver).2.heap.records = session.heap.records := by
  obtain ⟨values, grown, kept⟩ := among_namespaceValues among session.namespaces
  have argument (index : Nat) : (arguments[index]?.getD .none).Among records := by
    cases found : arguments[index]? with
    | none => trivial
    | some value => exact argumentsAmong value (List.mem_of_getElem? found)
  refine ⟨?_, (grown.newArray fun item member => values item (List.mem_toArray.mp member)).newArray
    fun item member => ?_, kept⟩
  · cases receiver with
    | none => trivial
    | some value => exact receiverAmong value rfl
  · simp only [List.mem_toArray, List.mem_cons, List.not_mem_nil, or_false] at member
    rcases member with rfl | rfl | rfl | rfl | rfl
    · rw [List.head?_eq_getElem?]
      exact argument 0
    · trivial
    · trivial
    · trivial
    · exact argument 7

theorem native_among {session : Session} (among : session.heap.Among records)
    (action : NativeAction) {arguments : List Value}
    (argumentsAmong : ∀ argument ∈ arguments, argument.Among records)
    {receiver : Option Value} (receiverAmong : ScopeAmong records receiver) :
    session.NativeAmong records (session.runNative action arguments receiver).2
      (session.runNative action arguments receiver).1 := by
  have none : session.NativeAmong records session (.ok .none) :=
    .plain among (by rintro _ ⟨⟩; trivial)
  cases action with
  | length => exact .map among _ fun _ => trivial
  | typeName => exact .plain among (by rintro _ ⟨⟩; trivial)
  | text => exact .plain among (by rintro _ ⟨⟩; trivial)
  | number => exact .map among _ fun _ => trivial
  | clock => exact .plain among (by rintro _ ⟨⟩; trivial)
  | rest => exact none
  | range =>
      simp only [runNative]
      split
      · exact .array among (by trivial) _ fun _ => trivial
      · exact .plain among (by rintro _ ⟨⟩)
  | memberNames =>
      simp only [runNative]
      split
      · exact .array among (by trivial) _ fun _ => trivial
      · exact .plain among (by rintro _ ⟨⟩)
  | hasMember =>
      simp only [runNative]
      split
      · exact .map among _ fun _ => trivial
      · exact .plain among (by rintro _ ⟨⟩)
  | suspend =>
      have same : (session.suspend true).heap = session.heap := by
        unfold Session.suspend
        split <;> rfl
      exact ⟨none.value, same ▸ among, congrArg Heap.records same⟩
  | report =>
      obtain ⟨value, heap, kept⟩ := among_report among argumentsAmong receiverAmong
      refine ⟨?_, heap, kept⟩
      rintro _ ⟨⟩
      exact value

/-!
## Turns
-/

/-- A context that was just opened has a record of names of its own, which is new. -/
structure Opened (before after : Heap) (context : Context) : Prop where
  kind : context.kind ≠ .base
  fresh : before.records.size ≤ context.names.address
  present : context.names.address < after.records.size
  ownsNames : context.ownsNames = true

/-- A context whose scope has a new record of names of its own was just opened. -/
theorem Opened.of_scope {before after : Heap} {origin context : Context} {address : Nat}
    (scope : origin.KeepsScope context) (kind : origin.kind ≠ .base)
    (ownsNames : origin.ownsNames = true) (same : origin.names = ⟨address⟩)
    (fresh : before.records.size ≤ address) (present : address < after.records.size) :
    Opened before after context := by
  have names : context.names = ⟨address⟩ :=
    (congrArg ScopeChain.names scope.place.chain).trans same
  exact {
    kind := scope.kind ▸ kind
    fresh := by rw [names]; exact fresh
    present := by rw [names]; exact present
    ownsNames := scope.ownsNames.trans ownsNames }

/-- How a turn changes the stack and the heap. -/
inductive Turned (records : RecordRef → Prop) :
    List Activation → Heap → Progress → List Activation → Heap → Prop where
  | rests (stack : List Activation) (heap : Heap) (progress : Progress) :
      Turned records stack heap progress stack heap
  /-- A context goes on in its scope. Contexts above it, if there are any, are gone. -/
  | goes {popped below : List Activation} {old new : Activation} {heap grown : Heap}
      {progress : Progress}
      (scope : old.context.KeepsScope new.context) (newAmong : new.Among records)
      (heapAmong : grown.Among records)
      (writes : heap.Writes (fun reference => records reference ∨
        (popped = [] ∧ reference = old.context.names) ∨
        ∃ activation ∈ popped, activation.context.ownsNames = true ∧
          reference = activation.context.names) grown) :
      Turned records (popped ++ old :: below) heap progress (new :: below) grown
  /-- A context waits for another one that it has opened above it. -/
  | opens {below : List Activation} {old new : Activation} {context : Context}
      {heap grown : Heap} (scope : old.context.KeepsScope new.context)
      (newAmong : new.Among records) (opened : Opened heap grown context)
      (contextAmong : context.Among records) (heapAmong : grown.Among records)
      (writes : heap.Writes (fun reference => records reference ∨ reference = old.context.names)
        grown) :
      Turned records (old :: below) heap .working (⟨context, .resting⟩ :: new :: below) grown
  /-- A block is over and gives its names to the statement that declares the record. -/
  | declares {top caller : Activation} {below : List Activation} {heap : Heap} {name : String}
      {span : Span} (rests : top.activity = .resting) (ended : top.context.current = none)
      (owns : top.context.ownsNames = true) (waits : caller.activity = .declaring name span) :
      Turned records (top :: caller :: below) heap .working
        (⟨caller.context.proceed, .resting⟩ :: below)
        (caller.context.bind heap name (.record top.context.names))

/-- An error takes contexts down and releases them. -/
theorem unwind_turned {heap : Heap} (among : heap.Among records) (failure : RuntimeError)
    (top : Activation) (below : List Activation) :
    ∃ popped rest, ∃ old : Activation, top :: below = popped ++ old :: rest ∧
      (Session.unwind failure top heap below).2.1 = ⟨old.context, .resting⟩ :: rest ∧
      (Session.unwind failure top heap below).2.2.Among records ∧
      heap.Writes (fun reference => ∃ activation ∈ popped, activation.context.ownsNames = true ∧
        reference = activation.context.names) (Session.unwind failure top heap below).2.2 := by
  induction below generalizing failure top heap with
  | nil => exact ⟨[], [], top, rfl, rfl, among, .refl heap⟩
  | cons caller below ih =>
      -- One more context above those that go down when the error is in the caller.
      have goes (failure : RuntimeError) :
          ∃ popped rest, ∃ old : Activation, top :: caller :: below = popped ++ old :: rest ∧
            (Session.unwind failure caller (top.context.release heap) below).2.1 =
              ⟨old.context, .resting⟩ :: rest ∧
            (Session.unwind failure caller (top.context.release heap) below).2.2.Among records ∧
            heap.Writes (fun reference => ∃ activation ∈ popped,
              activation.context.ownsNames = true ∧ reference = activation.context.names)
              (Session.unwind failure caller (top.context.release heap) below).2.2 := by
        obtain ⟨popped, rest, old, stack, left, leftAmong, writes⟩ :=
          ih (among.release top.context) failure caller
        refine ⟨top :: popped, rest, old, by rw [stack, List.cons_append], left, leftAmong, ?_⟩
        have released : heap.Writes (fun reference => ∃ activation ∈ top :: popped,
            activation.context.ownsNames = true ∧ reference = activation.context.names)
            (top.context.release heap) :=
          .release _ _ fun owns => ⟨top, List.mem_cons_self, owns, rfl⟩
        exact released.trans (writes.mono fun _ ⟨activation, member, given⟩ =>
          ⟨activation, List.mem_cons_of_mem top member, given⟩)
      unfold Session.unwind
      split
      · exact goes _
      · exact goes _
      · exact ⟨[], caller :: below, top, rfl, rfl, among, .refl heap⟩

variable {heap : Heap} {below : List Activation}

/-- A turn of the context on top that stays on top. -/
private theorem Turned.stays {old new : Activation} {grown : Heap} {progress : Progress}
    (scope : old.context.KeepsScope new.context) (newAmong : new.Among records)
    (heapAmong : grown.Among records)
    (writes : heap.Writes (fun reference => records reference ∨ reference = old.context.names)
      grown) : Turned records (old :: below) heap progress (new :: below) grown :=
  @Turned.goes records [] below old new heap grown progress scope newAmong heapAmong
    (writes.mono fun _ => Or.imp_right fun same => .inl ⟨rfl, same⟩)

/-- An error of a context, above which others are gone already. -/
private theorem raise_turned {session : Session} {failure : RuntimeError} {origin top : Activation}
    (gone : List Activation) (heapAmong : session.heap.Among records)
    (same : session.heap.records = heap.records) (scope : origin.context.KeepsScope top.context)
    (among : top.context.Among records)
    (belowAmong : ∀ activation ∈ below, activation.Among records) :
    Turned records (gone ++ origin :: below) heap (session.raise failure top below).1
      (session.raise failure top below).2.stack
      (session.raise failure top below).2.heap := by
  obtain ⟨popped, rest, old, stack, left, leftAmong, writes⟩ :=
    unwind_turned heapAmong failure top below
  have unchanged : heap.Writes (fun _ => False) session.heap := .of_records same
  unfold Session.raise
  generalize Session.unwind failure top session.heap below = answer at left leftAmong writes
  obtain ⟨unwound, after, released⟩ := answer
  dsimp only at left leftAmong writes ⊢
  subst left
  cases popped with
  | nil =>
      obtain ⟨rfl, rfl⟩ := List.cons.inj stack
      exact @Turned.goes records gone below origin _ heap released _ scope ⟨among, trivial⟩
        leftAmong ((unchanged.mono fun _ => False.elim).trans
          (writes.mono fun _ ⟨_, member, _⟩ => nomatch member))
  | cons first popped =>
      obtain ⟨rfl, split⟩ := List.cons.inj stack
      have split : below = popped ++ old :: rest := split
      subst split
      have oldAmong := belowAmong old (List.mem_append_right popped List.mem_cons_self)
      have whole : gone ++ origin :: (popped ++ old :: rest) =
          (gone ++ origin :: popped) ++ old :: rest := by simp
      rw [whole]
      refine @Turned.goes records _ rest old _ heap released _ (.refl _)
        ⟨oldAmong.context, trivial⟩ leftAmong
        ((unchanged.mono fun _ => False.elim).trans (writes.mono ?_))
      rintro reference ⟨activation, member, owns, names⟩
      refine .inr (.inr ?_)
      rcases List.mem_cons.mp member with rfl | member
      · exact ⟨origin, by simp, scope.ownsNames ▸ owns, names.trans
          (congrArg ScopeChain.names scope.place.chain)⟩
      · exact ⟨activation, by simp [member], owns, names⟩

private theorem settleStatement_turned {session : Session} {origin : Activation}
    {outcome : StatementOutcome} (goes : outcome.Goes records heap origin.context)
    (belowAmong : ∀ activation ∈ below, activation.Among records) :
    Turned records (origin :: below) heap (session.settleStatement outcome below).1
      (session.settleStatement outcome below).2.stack
      (session.settleStatement outcome below).2.heap := by
  cases outcome with
  | done context grown | line text context grown =>
      exact .stays goes.scope ⟨goes.contextAmong, trivial⟩ goes.heapAmong goes.writes
  | evaluate expression continuation context grown =>
      obtain ⟨goes, continuationAmong⟩ := goes
      have scope := goes.scope
      exact .stays ⟨scope.kind, ⟨scope.place.script, scope.place.chain⟩, scope.ownsNames⟩
        ⟨goes.contextAmong.begin expression, continuationAmong⟩ goes.heapAmong goes.writes
  | declare name body span context grown =>
      have scope := (Context.block context.script ⟨grown.records.size⟩
        context.visible).keepsScope_enter body none none none
      have opened : Opened heap (grown.newRecord .empty).2
          ((Context.block context.script ⟨grown.records.size⟩ context.visible).enter body none none
            none) :=
        .of_scope scope (by simp [Context.block, Context.new]) rfl rfl goes.writes.size
          (by simp [Heap.newRecord])
      exact .opens goes.scope ⟨goes.contextAmong, trivial⟩ opened
        ((Context.Among.new goes.contextAmong.evaluation.script).enter _ _ _ _)
        goes.heapAmong.newRecord (goes.writes.trans (.newRecord grown .empty))
  | failed failure context grown =>
      obtain ⟨scope, among, grownAmong, kept⟩ := goes
      exact raise_turned [] grownAmong kept scope among belowAmong

/-- The context of a call is new, and so is the record that its names are bound in. -/
theorem callContext_among {session : Session} (heapAmong : session.heap.Among records)
    {script : Script} (plain : script.Plain) (entry : Option StatementRef)
    (parameters : List String) (globals : Option RecordRef) {arguments : List Value}
    (argumentsAmong : ∀ argument ∈ arguments, argument.Among records) {receiver : Option Value}
    (receiverAmong : ScopeAmong records receiver) :
    let opened := session.callContext script entry parameters globals arguments receiver
    Opened session.heap opened.2.heap opened.1 ∧ opened.1.Among records ∧
      opened.2.heap.Among records ∧ session.heap.Writes (fun _ => False) opened.2.heap := by
  intro opened
  have scope := (Context.functionCall script ⟨session.heap.records.size⟩
    (globals.getD session.globals)).keepsScope_enter entry none none none
  have context : opened.1.Among records := (Context.Among.new plain).enter _ _ _ _
  -- The parameters are bound first, then the receiver, both in the new record.
  have made : session.heap.Writes (fun _ => False) (session.heap.newRecord .empty).2 :=
    .newRecord _ _
  have grown : session.heap.records.size < (session.heap.newRecord .empty).2.records.size := by
    simp [Heap.newRecord]
  have binds : (session.heap.newRecord .empty).2.Writes
      (fun reference => session.heap.records.size ≤ reference.address) _ :=
    .bindParameters _ (Nat.le_refl session.heap.records.size) parameters arguments
  have bound := heapAmong.newRecord.bindParameters ⟨session.heap.records.size⟩ parameters
    argumentsAmong
  have later (after : Heap) (heap : opened.2.heap = after) (among : after.Among records)
      (writes : (session.heap.newRecord .empty).2.Writes
        (fun reference => session.heap.records.size ≤ reference.address) after) :
      Opened session.heap opened.2.heap opened.1 ∧ opened.1.Among records ∧
        opened.2.heap.Among records ∧ session.heap.Writes (fun _ => False) opened.2.heap := by
    rw [heap]
    have opens : Opened session.heap after opened.1 :=
      .of_scope scope (by simp [Context.functionCall, Context.new]) rfl rfl (Nat.le_refl _)
        (Nat.lt_of_lt_of_le grown writes.size)
    exact ⟨opens, context, among, made.then_new writes⟩
  cases receiver with
  | none => exact later _ rfl bound binds
  | some value =>
      exact later _ rfl (bound.setMember (receiverAmong value rfl))
        (binds.trans (.modifyRecord _ _ (Nat.le_refl _)))

private theorem beginCall_turned {session : Session} {origin : Activation} {request : CallRequest}
    {scope : Option Value} {context : Context} {continuation : Continuation}
    (heapAmong : session.heap.Among records) (same : session.heap.records = heap.records)
    (kept : origin.context.KeepsScope context) (among : context.Among records)
    (requestAmong : request.Among records) (scopeAmong : ScopeAmong records scope)
    (continuationAmong : continuation.Among records)
    (belowAmong : ∀ activation ∈ below, activation.Among records) :
    Turned records (origin :: below) heap
      (session.beginCall request scope context continuation below).1
      (session.beginCall request scope context continuation below).2.stack
      (session.beginCall request scope context continuation below).2.heap := by
  unfold Session.beginCall
  dsimp only
  split
  · exact raise_turned [] heapAmong same kept among belowAmong
  · split
    · next action _ =>
        have native := @native_among records
          { session with stack := ⟨context, .evaluating continuation⟩ :: below } heapAmong action
          request.arguments requestAmong.arguments request.receiver requestAmong.receiver
        have contexts := runNative_keeps
          { session with stack := ⟨context, .evaluating continuation⟩ :: below } action
          request.arguments request.receiver
        generalize Session.runNative _ action _ _ = answer at native contexts
        obtain ⟨answer, after⟩ := answer
        have records := native.kept.trans same
        cases answer with
        | ok value =>
            dsimp only
            rw [modifyContext_of_stack contexts.stack]
            have pushed := among.evaluation.pushResult (native.value value rfl) scopeAmong
            exact .stays ⟨kept.kind, ⟨kept.place.script, kept.place.chain⟩, kept.ownsNames⟩
              ⟨⟨pushed, among.frames, among.returned⟩, continuationAmong⟩ native.heap
              (.of_records records)
        | error cause => exact raise_turned [] native.heap records kept among belowAmong
    · next script entry body =>
        obtain ⟨opened, contextAmong, grownAmong, writes⟩ := callContext_among heapAmong
          (heapAmong.scripts _ script entry body) entry
          (session.heap.function request.function).parameters
          (session.heap.function request.function).globals requestAmong.arguments
          requestAmong.receiver
        have unchanged : heap.Writes (fun _ => False) session.heap := .of_records same
        exact .opens kept ⟨among, continuationAmong, scopeAmong⟩
          ⟨opened.kind, by rw [← same]; exact opened.fresh, opened.present, opened.ownsNames⟩
          contextAmong grownAmong ((unchanged.trans writes).mono fun _ => False.elim)

private theorem complete_turned {session : Session} {top caller : Activation}
    (among : session.Among records) (stack : session.stack = top :: caller :: below)
    (rests : top.activity = .resting) (ended : top.context.current = none) :
    Turned records (top :: caller :: below) session.heap
      (session.complete top.context caller below).1
      (session.complete top.context caller below).2.stack
      (session.complete top.context caller below).2.heap := by
  obtain ⟨topAmong, callerAmong, belowAmong⟩ :
      top.Among records ∧ caller.Among records ∧
        ∀ activation ∈ below, activation.Among records := by
    simpa [stack] using among.stack
  unfold Session.complete
  dsimp only
  split
  · next continuation scope span waits =>
      obtain ⟨continuationAmong, scopeAmong⟩ := waits ▸ callerAmong.activity
      have value : (top.context.returnValue.getD .none).Among records := by
        cases returned : top.context.returnValue with
        | none => trivial
        | some value => exact topAmong.context.returned value returned
      have pushed := callerAmong.context.evaluation.pushResult value scopeAmong
      refine @Turned.goes records [top] below caller _ session.heap _ _ ⟨rfl, ⟨rfl, rfl⟩, rfl⟩
        ⟨⟨pushed, callerAmong.context.frames, callerAmong.context.returned⟩, continuationAmong⟩
        (among.heap.release top.context) ?_
      exact .release _ _ fun owns => .inr (.inr ⟨top, List.mem_singleton_self top, owns, rfl⟩)
  · next name span waits =>
      unfold Context.takeNames
      split
      · next members left taken =>
          split at taken
          · next owns =>
              cases taken
              exact .declares rests ended owns waits
          · cases taken
      · next cause left refused =>
          split at refused
          · cases refused
          · next borrowed =>
              cases refused
              have released : top.context.release session.heap = session.heap := if_neg borrowed
              rw [released]
              exact @raise_turned records session.heap below session _ caller
                ⟨caller.context, .resting⟩ [top] among.heap rfl (.refl _) callerAmong.context
                belowAmong
  · rw [stack]
    exact .rests _ _ _

private theorem beginNext_turned {session : Session} {top : Activation}
    (among : session.Among records) (stack : session.stack = top :: below)
    (rests : top.activity = .resting) :
    Turned records (top :: below) session.heap (session.beginNext top below).1
      (session.beginNext top below).2.stack
      (session.beginNext top below).2.heap := by
  obtain ⟨topAmong, belowAmong⟩ :
      top.Among records ∧ ∀ activation ∈ below, activation.Among records := by
    simpa [stack] using among.stack
  unfold Session.beginNext
  split
  · next ended =>
      cases below with
      | nil =>
          rw [stack]
          exact .rests _ _ _
      | cons caller below => exact complete_turned among stack rests ended
  · split
    · exact .stays top.context.keepsScope_proceed ⟨topAmong.context.proceed, trivial⟩ among.heap
        (.refl _)
    · exact settleStatement_turned
        (Context.goes_beginStatement topAmong.context among.heap _ _) belowAmong

/-- What a turn does to a session whose values are among the records. -/
theorem advance_turned {session : Session} (among : session.Among records) :
    Turned records session.stack session.heap session.advance.1 session.advance.2.stack
      session.advance.2.heap := by
  unfold Session.advance
  split
  · next stack =>
      dsimp only
      split <;> exact .rests _ _ _
  · next top below stack =>
      obtain ⟨topAmong, belowAmong⟩ :
          top.Among records ∧ ∀ activation ∈ below, activation.Among records := by
        simpa [stack] using among.stack
      rw [stack]
      split
      · next rests =>
          dsimp only
          split
          · exact raise_turned [] among.heap rfl (.refl _) topAmong.context belowAmong
          · exact @beginNext_turned records below
              { session with stack := top :: below, now := session.now + 1 } top
              ⟨among.heap, stack ▸ among.stack⟩ rfl rests
      · next continuation evaluating =>
          have continuationAmong : continuation.Among records := by
            have activity := topAmong.activity
            rwa [evaluating] at activity
          have evaluated := topAmong.context.evaluation.advance among.heap
          have kept := top.context.evaluation.advance_keeps session.heap
          generalize top.context.evaluation.advance session.heap = answer at evaluated kept
          obtain ⟨turn, evaluation, grown⟩ := answer
          obtain ⟨turnAmong, evaluationAmong, grownAmong⟩ := evaluated
          obtain ⟨place, objects⟩ := kept
          have scope : top.context.KeepsScope { top.context with evaluation } := ⟨rfl, place, rfl⟩
          have context : Context.Among records { top.context with evaluation } :=
            ⟨evaluationAmong, topAmong.context.frames, topAmong.context.returned⟩
          cases turn with
          | working =>
              exact .stays scope ⟨context, topAmong.activity⟩ grownAmong
                (.of_records objects.records)
          | call request called =>
              exact beginCall_turned grownAmong objects.records scope context turnAmong.1
                turnAmong.2 continuationAmong belowAmong
          | finished value =>
              have goes := Context.goes_deliver context grownAmong continuationAmong turnAmong
              exact settleStatement_turned (goes.behind scope objects.records) belowAmong
          | failed failure =>
              exact raise_turned [] grownAmong objects.records scope context belowAmong
          | endless => exact stack ▸ .rests _ _ _
      · exact stack ▸ .rests _ _ _
      · exact stack ▸ .rests _ _ _

/-- After a turn the values are among the records again, if the names that a finished
block gives away are one of them. -/
theorem Turned.among {stack after : List Activation} {heap grown : Heap} {progress : Progress}
    (turned : Turned records stack heap progress after grown) (heapAmong : heap.Among records)
    (stackAmong : ∀ activation ∈ stack, activation.Among records)
    (given : ∀ top ∈ stack.head?, top.context.ownsNames = true → records top.context.names) :
    grown.Among records ∧ ∀ activation ∈ after, activation.Among records := by
  cases turned with
  | rests => exact ⟨heapAmong, stackAmong⟩
  | goes scope newAmong grownAmong writes =>
      exact ⟨grownAmong, List.forall_mem_cons.mpr ⟨newAmong, fun activation member =>
        stackAmong activation (by simp [member])⟩⟩
  | opens scope newAmong opened contextAmong grownAmong writes =>
      exact ⟨grownAmong, List.forall_mem_cons.mpr ⟨⟨contextAmong, trivial⟩,
        List.forall_mem_cons.mpr ⟨newAmong, fun activation member =>
          stackAmong activation (by simp [member])⟩⟩⟩
  | @declares top caller below heap name span rests ended owns waits =>
      have callerAmong := (stackAmong caller (by simp)).context
      exact ⟨heapAmong.setMember (given top rfl owns),
        List.forall_mem_cons.mpr ⟨⟨callerAmong.proceed, trivial⟩, fun activation member =>
          stackAmong activation (by simp [member])⟩⟩

/-!
## Turns that call
-/

/-- The names of the contexts that own theirs. -/
def OwnedBy (stack : List Activation) (reference : RecordRef) : Prop :=
  ∃ activation ∈ stack, activation.context.ownsNames = true ∧
    reference = activation.context.names

theorem raise_writes {session : Session} (among : session.heap.Among records)
    (failure : RuntimeError) (top : Activation) (below : List Activation) :
    session.heap.Writes (OwnedBy (top :: below)) (session.raise failure top below).2.heap := by
  obtain ⟨popped, rest, old, stack, _, _, writes⟩ := unwind_turned among failure top below
  refine writes.mono fun reference ⟨activation, member, given⟩ => ⟨activation, ?_, given⟩
  rw [stack]
  exact List.mem_append_left _ member

/-- Calling a function changes no record but those that an error clears. -/
theorem beginCall_writes {session : Session} (among : session.heap.Among records)
    {request : CallRequest} (requestAmong : request.Among records) (scope : Option Value)
    (context : Context) (continuation : Continuation) (below : List Activation) :
    session.heap.Writes (OwnedBy (⟨context, .evaluating continuation⟩ :: below))
      (session.beginCall request scope context continuation below).2.heap := by
  unfold Session.beginCall
  dsimp only
  split
  · exact raise_writes among _ _ _
  · split
    · next action _ =>
        have native := @native_among records
          { session with stack := ⟨context, .evaluating continuation⟩ :: below } among action
          request.arguments requestAmong.arguments request.receiver requestAmong.receiver
        have contexts := runNative_keeps
          { session with stack := ⟨context, .evaluating continuation⟩ :: below } action
          request.arguments request.receiver
        generalize Session.runNative _ action _ _ = answer at native contexts
        obtain ⟨answer, after⟩ := answer
        have kept : session.heap.Writes (OwnedBy (⟨context, .evaluating continuation⟩ :: below))
            after.heap := .of_records native.kept
        cases answer with
        | ok value =>
            dsimp only
            rw [modifyContext_of_stack contexts.stack]
            exact kept
        | error cause => exact kept.trans (raise_writes native.heap _ _ _)
    · next script entry body =>
        obtain ⟨_, _, _, writes⟩ := callContext_among among (among.scripts _ script entry body)
          entry (session.heap.function request.function).parameters
          (session.heap.function request.function).globals requestAmong.arguments
          requestAmong.receiver
        exact writes.mono fun _ => False.elim

end Session

end ScriptEngine
