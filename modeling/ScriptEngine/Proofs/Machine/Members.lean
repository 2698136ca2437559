import ScriptEngine.Proofs.Machine.Ownership

/-!
# Records keep their members

Members are taken off a record only where it holds the names of a context: by a statement that
deletes a name, and when the context is dropped (`Session.advance_keepsNames`). No value is such
a record, so a record that a script can get hold of never loses a member (`Session.Lent.apart`,
`Session.Apart.advance`).
-/

set_option autoImplicit false

namespace ScriptEngine

theorem Record.mem_names {record : Record} {name : String} :
    name ∈ record.names ↔ (record.get? name).isSome = true := by
  obtain ⟨members, ordered⟩ := record
  simp only [names, get?]
  induction members with
  | nil => simp
  | cons entry rest ih =>
      have later := ih (List.Pairwise.of_cons ordered)
      simp only [List.map_cons, List.mem_cons, later]
      by_cases same : name = entry.1
      · simp [same]
      · simp [same]

/-!
## Heaps
-/

/-- The record has all the members that it had, and perhaps more. -/
def Heap.KeepsNames (reference : RecordRef) (before after : Heap) : Prop :=
  ∀ name ∈ (before.record reference).names, name ∈ (after.record reference).names

namespace Heap.KeepsNames

variable {reference : RecordRef}

theorem refl (heap : Heap) : KeepsNames reference heap heap :=
  fun _ member => member

theorem trans {first second third : Heap} (early : KeepsNames reference first second)
    (late : KeepsNames reference second third) : KeepsNames reference first third :=
  fun name member => late name (early name member)

theorem of_records {before after : Heap} (same : after.records = before.records) :
    KeepsNames reference before after := by
  intro name member
  have same : after.record reference = before.record reference := by simp only [record, same]
  rwa [same]

theorem of_modifyRecord {heap : Heap} {changed : RecordRef} {change : Record → Record}
    (kept : ∀ record : Record, changed = reference → ∀ name ∈ record.names,
      name ∈ (change record).names) :
    KeepsNames reference heap (heap.modifyRecord changed change) := by
  by_cases same : changed = reference
  · intro name member
    rcases heap.record_modifyRecord_cases changed reference change with kept' | changed' 
    · rwa [kept']
    · rw [changed']
      exact kept _ same name member
  · have different : changed.address ≠ reference.address := fun addresses => same (by
      obtain ⟨address⟩ := changed
      exact congrArg RecordRef.mk addresses)
    intro name member
    have other : (heap.modifyRecord changed change).record reference = heap.record reference := by
      simp only [modifyRecord, record, Array.getElem?_modify, if_neg different]
    rwa [other]

theorem setMember (heap : Heap) (changed : RecordRef) (name : String) (value : Value) :
    KeepsNames reference heap (heap.setMember changed name value) := by
  refine of_modifyRecord fun record _ key member => ?_
  rw [Record.mem_names, record.get?_insert]
  split
  · rfl
  · exact Record.mem_names.mp member

theorem of_apart {heap : Heap} {changed : RecordRef} (apart : changed ≠ reference)
    (change : Record → Record) : KeepsNames reference heap (heap.modifyRecord changed change) :=
  of_modifyRecord fun _ same => (apart same).elim

theorem newRecord (heap : Heap) : KeepsNames reference heap (heap.newRecord .empty).2 := by
  intro name member
  have present : reference.address < heap.records.size := by
    by_contra absent
    have nothing : heap.record reference = .empty := by
      simp only [record, Array.getElem?_eq_none (Nat.not_lt.mp absent)]
      rfl
    rw [nothing] at member
    cases member
  rwa [heap.record_newRecord_of_lt .empty present]

theorem bindParameters (heap : Heap) (locals : RecordRef) (parameters : List String)
    (arguments : List Value) :
    KeepsNames reference heap (heap.bindParameters locals parameters arguments) := by
  induction parameters generalizing heap arguments with
  | nil => exact .refl heap
  | cons parameter parameters ih =>
      cases arguments with
      | nil => exact .refl heap
      | cons argument arguments =>
          have copied : KeepsNames reference heap (heap.duplicate argument).2 :=
            .of_records (heap.keepsObjects_duplicate argument).records
          exact (copied.trans (setMember _ locals parameter _)).trans (ih _ _)

theorem setElement {heap grown : Heap} {object index value : Value}
    (written : heap.setElement object index value = .ok grown) :
    KeepsNames reference heap grown := by
  unfold Heap.setElement at written
  split at written
  · split at written <;> cases written
    exact .of_records rfl
  · cases written
    exact setMember _ _ _ _
  · cases written

theorem release {context : Context} (apart : context.names ≠ reference) (heap : Heap) :
    KeepsNames reference heap (context.release heap) := by
  unfold Context.release
  split
  · exact of_apart apart _
  · exact .refl heap

end Heap.KeepsNames

/-!
## Statements
-/

namespace Context

variable {context : Context} {reference : RecordRef} (heap : Heap)

private theorem keepsNames_tryBranches (branches : List (ExpressionRef × Option StatementRef))
    (otherwise : Option (Option StatementRef)) (following : Option StatementRef) :
    Heap.KeepsNames reference heap
      (context.tryBranches heap branches otherwise following).heap := by
  cases branches with
  | cons branch rest => exact .refl heap
  | nil => cases otherwise <;> exact .refl heap

private theorem keepsNames_nextPass (loop : StatementRef) (item : String)
    (body : Option StatementRef) :
    Heap.KeepsNames reference heap (context.nextPass heap loop item body).heap := by
  unfold nextPass
  split
  · exact .setMember _ _ _ _
  · exact .refl heap

theorem keepsNames_beginStatement (apart : context.names ≠ reference) (this : StatementRef)
    (statement : Statement) :
    Heap.KeepsNames reference heap (context.beginStatement heap this statement).heap := by
  cases statement with
  | expression | whileLoop | pass | record => exact .refl heap
  | print values => cases values <;> exact .refl heap
  | assign target => cases target <;> exact .refl heap
  | returnValue value => cases value <;> exact .refl heap
  | branch branches otherwise => exact keepsNames_tryBranches heap _ _ _
  | define => exact (Heap.KeepsNames.of_records rfl).trans (.setMember _ _ _ _)
  | forLoop item iterable body span =>
      unfold beginStatement
      dsimp only
      split
      · exact keepsNames_nextPass heap this item body
      · exact .refl heap
  | breakLoops | continueLoop =>
      unfold beginStatement
      dsimp only
      split <;> exact .refl heap
  | delete =>
      unfold beginStatement
      dsimp only
      split
      · exact .of_apart apart _
      · exact .refl heap

theorem keepsNames_deliver (continuation : Continuation) (value : Value) :
    Heap.KeepsNames reference heap (context.deliver heap continuation value).heap := by
  cases continuation with
  | discard | assignElementOf | assignElementAt | returnValue => exact .refl heap
  | print line rest => cases rest <;> exact .refl heap
  | assignMemberOf =>
      unfold deliver
      dsimp only
      split <;> exact .refl heap
  | assignName | assignMember =>
      simp only [deliver]
      split
      · next combined =>
          have made := (AssignOperator.keepsObjects_combine combined).records
          exact (Heap.KeepsNames.of_records made).trans (.setMember _ _ _ _)
      · exact .refl heap
  | assignElement object index operator span =>
      simp only [deliver]
      split
      · next combined =>
          have made : Heap.KeepsNames reference heap _ :=
            .of_records (AssignOperator.keepsObjects_combine combined).records
          split
          · next same => exact made.trans (.setElement same)
          · exact made
      · exact .refl heap
  | branch body rest otherwise following =>
      simp only [deliver]
      split
      · exact .refl heap
      · exact keepsNames_tryBranches heap rest otherwise following
  | whileLoop =>
      simp only [deliver]
      split <;> exact .refl heap
  | forLoop loop item body span =>
      simp only [deliver]
      split
      · exact keepsNames_nextPass heap loop item body
      · exact .refl heap

end Context

namespace Session

/-!
## Turns
-/

theorem records_namespaceValues (session : Session) (namespaces : List RecordRef) :
    (session.namespaceValues namespaces).2.heap.records = session.heap.records := by
  induction namespaces generalizing session with
  | nil => rfl
  | cons reference rest ih =>
      simp only [namespaceValues]
      split
      · exact ih session
      · exact ih (session.newArrayValue ((session.heap.record reference).names.map Value.text)).2

/-- Native functions change no records. -/
theorem records_runNative (session : Session) (action : NativeAction) (arguments : List Value)
    (receiver : Option Value) :
    (session.runNative action arguments receiver).2.heap.records = session.heap.records := by
  cases action with
  | length | typeName | text | number | clock | rest => rfl
  | hasMember | range | memberNames =>
      unfold runNative
      dsimp only
      split <;> rfl
  | suspend =>
      simp only [runNative, suspend]
      split <;> rfl
  | report => exact session.records_namespaceValues session.namespaces

variable {reference : RecordRef} {below : List Activation}

private theorem keepsNames_unwind (failure : RuntimeError) {top : Activation} (heap : Heap)
    (apart : ∀ activation ∈ top :: below, activation.context.names ≠ reference) :
    Heap.KeepsNames reference heap (unwind failure top heap below).2.2 := by
  induction below generalizing failure top heap with
  | nil => exact .refl heap
  | cons caller below ih =>
      obtain ⟨topApart, others⟩ := List.forall_mem_cons.mp apart
      unfold unwind
      split
      · exact (Heap.KeepsNames.release topApart heap).trans (ih _ _ others)
      · exact (Heap.KeepsNames.release topApart heap).trans (ih _ _ others)
      · exact .refl heap

private theorem keepsNames_settleStatement (session : Session) {heap : Heap}
    {outcome : StatementOutcome} (kept : Heap.KeepsNames reference heap outcome.heap)
    (apart : ∀ failure context grown, outcome = .failed failure context grown →
      ∀ activation ∈ ⟨context, .resting⟩ :: below, activation.context.names ≠ reference) :
    Heap.KeepsNames reference heap (session.settleStatement outcome below).2.heap := by
  cases outcome with
  | done | line | evaluate => exact kept
  | declare name body span context grown => exact kept.trans (.newRecord grown)
  | failed failure context grown =>
      exact kept.trans (keepsNames_unwind failure grown (apart failure context grown rfl))

/-- A failed statement leaves its context in its scope. -/
private theorem apart_of_goes {origin : Context} {heap : Heap} {outcome : StatementOutcome}
    (goes : outcome.Goes (fun _ => True) heap origin)
    (apart : origin.names ≠ reference ∧
      ∀ activation ∈ below, activation.context.names ≠ reference)
    (failure : RuntimeError) (context : Context) (grown : Heap)
    (failed : outcome = .failed failure context grown) :
    ∀ activation ∈ (⟨context, .resting⟩ : Activation) :: below,
      activation.context.names ≠ reference := by
  subst failed
  have names : context.names = origin.names := congrArg ScopeChain.names goes.1.chain
  exact List.forall_mem_cons.mpr ⟨names ▸ apart.1, apart.2⟩

private theorem keepsNames_beginCall (session : Session) {context : Context}
    (apart : context.names ≠ reference ∧
      ∀ activation ∈ below, activation.context.names ≠ reference) (request : CallRequest)
    (scope : Option Value) (continuation : Continuation) :
    Heap.KeepsNames reference session.heap
      (session.beginCall request scope context continuation below).2.heap := by
  unfold beginCall
  dsimp only
  split
  · exact keepsNames_unwind _ _ (List.forall_mem_cons.mpr apart)
  · split
    · next action _ =>
        have native : Heap.KeepsNames reference session.heap _ := .of_records
          (records_runNative { session with
            stack := ⟨context, .evaluating continuation⟩ :: below } action request.arguments
            request.receiver)
        generalize runNative _ action _ _ = answer at native
        obtain ⟨answer, after⟩ := answer
        cases answer with
        | ok value =>
            dsimp only [modifyContext]
            split <;> exact native
        | error cause =>
            exact native.trans (keepsNames_unwind _ _ (List.forall_mem_cons.mpr apart))
    · have bound : Heap.KeepsNames reference session.heap _ :=
        (Heap.KeepsNames.newRecord session.heap).trans (.bindParameters _
          (session.heap.newRecord .empty).1 (session.heap.function request.function).parameters
          request.arguments)
      unfold callContext
      dsimp only
      split
      · exact bound.trans (.setMember _ _ _ _)
      · exact bound

private theorem keepsNames_complete (session : Session) {top caller : Activation}
    (apart : ∀ activation ∈ top :: caller :: below, activation.context.names ≠ reference) :
    Heap.KeepsNames reference session.heap
      (session.complete top.context caller below).2.heap := by
  obtain ⟨topApart, others⟩ := List.forall_mem_cons.mp apart
  have released := Heap.KeepsNames.release topApart session.heap
  unfold complete
  dsimp only
  split
  · exact released
  · split
    · exact .setMember _ _ _ _
    · next left taken =>
        have same : left = top.context := by
          unfold Context.takeNames at taken
          split at taken <;> cases taken
          rfl
        rw [same]
        obtain ⟨callerApart, belowApart⟩ := List.forall_mem_cons.mp others
        exact released.trans (keepsNames_unwind _ _
          (List.forall_mem_cons.mpr ⟨callerApart, belowApart⟩))
  · exact .refl _

/-- A turn takes no member off a record which holds the names of none of the contexts. -/
theorem advance_keepsNames {session : Session} (layout : session.Layout)
    (apart : ∀ activation ∈ session.stack, activation.context.names ≠ reference) :
    Heap.KeepsNames reference session.heap session.advance.2.heap := by
  obtain ⟨_, among, _⟩ := layout
  unfold advance
  split
  · dsimp only
    split <;> exact .refl _
  · next top below stack =>
      obtain ⟨topAmong, _⟩ := List.forall_mem_cons.mp (stack ▸ among.stack)
      rw [stack] at apart
      obtain ⟨topApart, belowApart⟩ := List.forall_mem_cons.mp apart
      split
      · dsimp only
        split
        · exact keepsNames_unwind _ _ apart
        · unfold beginNext
          split
          · cases below with
            | nil => exact .refl _
            | cons caller below =>
                exact keepsNames_complete { session with now := session.now + 1 } apart
          · split
            · exact .refl _
            · exact keepsNames_settleStatement _
                (Context.keepsNames_beginStatement _ topApart _ _)
                (apart_of_goes (Context.goes_beginStatement topAmong.context among.heap _ _)
                  ⟨topApart, belowApart⟩)
      · next continuation evaluating =>
          have continuationAmong : continuation.Among fun _ => True := by
            have activity := topAmong.activity
            rwa [evaluating] at activity
          have evaluated := topAmong.context.evaluation.advance among.heap
          have kept := top.context.evaluation.advance_keeps session.heap
          generalize top.context.evaluation.advance session.heap = answer at evaluated kept
          obtain ⟨turn, evaluation, grown⟩ := answer
          obtain ⟨turnAmong, evaluationAmong, grownAmong⟩ := evaluated
          obtain ⟨place, objects⟩ := kept
          have context : Context.Among (fun _ => True) { top.context with evaluation } :=
            ⟨evaluationAmong, topAmong.context.frames, topAmong.context.returned⟩
          have names : ({ top.context with evaluation } : Context).names ≠ reference := by
            have same : ({ top.context with evaluation } : Context).names = top.context.names :=
              congrArg ScopeChain.names place.chain
            rwa [same]
          have evaluatedKeeps : Heap.KeepsNames reference session.heap grown :=
            .of_records objects.records
          cases turn with
          | working => exact evaluatedKeeps
          | call request scope =>
              exact evaluatedKeeps.trans (keepsNames_beginCall { session with heap := grown }
                ⟨names, belowApart⟩ request scope continuation)
          | finished value =>
              exact evaluatedKeeps.trans (keepsNames_settleStatement _
                (Context.keepsNames_deliver _ _ _)
                (apart_of_goes (Context.goes_deliver context grownAmong continuationAmong turnAmong)
                  ⟨names, belowApart⟩))
          | failed failure =>
              exact evaluatedKeeps.trans
                (keepsNames_unwind _ _ (List.forall_mem_cons.mpr ⟨names, belowApart⟩))
          | endless => exact .refl _
      · exact .refl _
      · exact .refl _

/-!
## What values can be
-/

variable {lent : List Value} {session : Session}

/-- The globals stay hidden. -/
theorem Lends.shelters {more : List Value} {after : Session} (lends : Lends lent session more after)
    (layout : session.Layout) (secluded : Secluded lent session)
    (before : session.Hides lent session.globals) : after.Hides more after.globals := by
  rw [(lends.steps layout).globals]
  refine lends.hides_of_turn ?_ before
  rintro rfl
  have turned := (advance_turned before.among).among before.among.heap before.among.stack
  refine (fun given => ⟨(turned given).1, (turned given).2⟩) fun top first owns => ?_
  obtain ⟨below, stack⟩ := List.head?_eq_some_iff.mp first
  have layers := layout.stacked.layers
  rw [stack] at layers
  cases layers with
  | cons sees _ =>
      cases sees with
      | base kind _ _ =>
          have borrowed := secluded.base top (stack ▸ List.mem_cons_self) kind
          rw [owns] at borrowed
          cases borrowed
      | function _ _ own | block _ _ _ _ own => exact own.ne_globals

theorem Lent.shelters (lending : Lent lent session) : session.Hides lent session.globals := by
  obtain ⟨timeLimit, later⟩ := lending
  have new : (Session.new timeLimit).Hides [] (Session.new timeLimit).globals := by
    obtain ⟨_, among, _⟩ := sheltered_new timeLimit
    exact ⟨among, List.forall_mem_nil _⟩
  induction later with
  | now => exact new
  | step later lends ih =>
      exact lends.shelters (later.staged (.new timeLimit)).layout
        (later.secluded (.new timeLimit) (secluded_new timeLimit)) ih

/-- No context binds its names in the record, and it is not the globals. -/
structure Apart (session : Session) (reference : RecordRef) : Prop where
  unowned : session.Unowned reference
  ne_globals : reference ≠ session.globals

/-- A record that the session holds as a value is apart from all names. -/
theorem Lent.apart (lending : Lent lent session) {reference : RecordRef}
    (held : ¬session.Among (· ≠ reference)) : session.Apart reference where
  unowned := lending.secluded.unowned lending.staged.layout
    (.inr (.inr fun hides => held hides.among))
  ne_globals := by
    rintro rfl
    exact held lending.shelters.among

namespace Apart

variable {reference : RecordRef} (apart : session.Apart reference)

include apart

theorem names (layout : session.Layout) :
    ∀ activation ∈ session.stack, activation.context.names ≠ reference := by
  intro activation member same
  obtain ⟨upper, below, stack⟩ := List.append_of_mem member
  have layers := layout.stacked.layers
  rw [stack] at layers
  cases layers.suffix with
  | cons sees _ =>
      cases sees with
      | base _ chain _ =>
          exact apart.ne_globals (same.symm.trans (congrArg ScopeChain.names chain))
      | function _ _ own | block _ _ _ _ own =>
          exact apart.unowned.unowned ⟨activation, member, own.owns, same.symm⟩

theorem advance (layout : session.Layout) : session.advance.2.Apart reference where
  unowned := apart.unowned.steps ((@Lends.advance [] session).steps layout)
  ne_globals := session.advance_settings.globals ▸ apart.ne_globals

end Apart

end Session

end ScriptEngine
