import ScriptEngine.Proofs.Machine.Among
import ScriptEngine.Proofs.Machine.Neutral

/-!
# Only the outermost context binds globals

Names are written through the record that the executing context calls its own, and the
globals are this record for base contexts only. They are no value either, so they cannot
be written to as a record. Hence nothing that runs in a context of a function or of a
block changes which names are global and what they are bound to, whatever it calls and
however it ends (`Session.nested_contexts_keep_globals`).
-/

set_option autoImplicit false

namespace ScriptEngine

/-- The names of a nested context are not the globals, and a base context does not own
its names. -/
structure Context.Sheltered (globals : RecordRef) (context : Context) : Prop where
  nested : context.kind ≠ .base → context.names ≠ globals
  base : context.kind = .base → context.ownsNames = false

namespace Context.Sheltered

variable {globals : RecordRef} {context : Context}

theorem owned (sheltered : context.Sheltered globals) (owns : context.ownsNames = true) :
    context.names ≠ globals := by
  refine sheltered.nested fun base => ?_
  rw [sheltered.base base] at owns
  cases owns

theorem keeps {after : Context} (sheltered : context.Sheltered globals)
    (scope : context.KeepsScope after) : after.Sheltered globals where
  nested kind := by
    have names : after.names = context.names := congrArg ScopeChain.names scope.place.chain
    rw [names]
    exact sheltered.nested (scope.kind ▸ kind)
  base kind := by
    rw [scope.ownsNames]
    exact sheltered.base (scope.kind ▸ kind)

end Context.Sheltered

namespace Session

/-- What the global names are bound to. -/
def bindings (session : Session) : Record :=
  session.heap.record session.globals

theorem bindings_eq {session after : Session} (globals : after.globals = session.globals)
    (record : after.heap.record session.globals = session.heap.record session.globals) :
    after.bindings = session.bindings := by
  unfold bindings
  rw [globals, record]

/-- The record of the globals is there, no value is this record, and only base contexts
keep their names in it. -/
structure Sheltered (session : Session) : Prop where
  present : session.globals.address < session.heap.records.size
  among : session.Among (· ≠ session.globals)
  contexts : ∀ activation ∈ session.stack, activation.context.Sheltered session.globals

/-- The session comes about from a new one, by turns and by what a host does in between.
A host may do what it likes to objects, as long as no value is the record of the globals. -/
inductive Hosted : Session → Prop where
  | new (timeLimit : Option Nat) : Hosted (Session.new timeLimit)
  | advance {session : Session} (hosted : session.Hosted) : session.advance.2.Hosted
  | run {session after : Session} {script : Script} (hosted : session.Hosted)
      (parsed : script.Parsed) (started : session.run script = .ok after) : after.Hosted
  /-- A host calls a function. The call may still be under way after the turns. -/
  | call {session : Session} (hosted : session.Hosted) (turns : Nat) (function : FunctionRef)
      {arguments : List Value} {receiver : Option Value}
      (argumentsAmong : ∀ argument ∈ arguments, argument.Among (· ≠ session.globals))
      (receiverAmong : ScopeAmong (· ≠ session.globals) receiver) :
      (session.call turns function arguments receiver).2.Hosted
  | clear {session : Session} (hosted : session.Hosted) : session.clear.Hosted
  | breakOut {session : Session} (hosted : session.Hosted) (count : Nat) :
      (session.modifyContext fun context => (context.breakOut count).2).Hosted
  | nextLoopPass {session : Session} (hosted : session.Hosted) :
      (session.modifyContext fun context => context.nextLoopPass.2).Hosted
  | reset {session : Session} (hosted : session.Hosted) :
      (session.modifyContext Context.reset).Hosted
  /-- Whatever leaves the contexts alone: time passes, a script is suspended or goes on,
  native functions are installed or called, members and items are changed. -/
  | other {session after : Session} (hosted : session.Hosted)
      (stack : after.stack = session.stack) (globals : after.globals = session.globals)
      (size : session.heap.records.size ≤ after.heap.records.size)
      (among : after.heap.Among (· ≠ session.globals)) : after.Hosted

/-!
## The globals stay sheltered
-/

theorem Opened.sheltered {before after : Heap} {context : Context}
    (opened : Opened before after context) {globals : RecordRef}
    (present : globals.address < before.records.size) : context.Sheltered globals where
  nested _ same := by
    have fresh := opened.fresh
    rw [same] at fresh
    exact Nat.not_lt.mpr fresh present
  base kind := (opened.kind kind).elim

theorem Turned.sheltered {globals : RecordRef} {stack after : List Activation}
    {heap grown : Heap} {progress : Progress}
    (turned : Turned (· ≠ globals) stack heap progress after grown)
    (present : globals.address < heap.records.size)
    (contexts : ∀ activation ∈ stack, activation.context.Sheltered globals) :
    heap.records.size ≤ grown.records.size ∧
      ∀ activation ∈ after, activation.context.Sheltered globals := by
  cases turned with
  | rests => exact ⟨Nat.le_refl _, contexts⟩
  | goes scope _ _ writes =>
      refine ⟨writes.size, List.forall_mem_cons.mpr ⟨(contexts _ (by simp)).keeps scope, ?_⟩⟩
      exact fun activation member => contexts activation (by simp [member])
  | opens scope _ opened _ _ writes =>
      refine ⟨writes.size, List.forall_mem_cons.mpr ⟨opened.sheltered present,
        List.forall_mem_cons.mpr ⟨(contexts _ (by simp)).keeps scope, ?_⟩⟩⟩
      exact fun activation member => contexts activation (by simp [member])
  | @declares _ caller =>
      refine ⟨by simp [Context.bind, Heap.setMember, Heap.modifyRecord],
        List.forall_mem_cons.mpr ⟨?_, ?_⟩⟩
      · exact (contexts caller (by simp)).keeps caller.context.keepsScope_proceed
      · exact fun activation member => contexts activation (by simp [member])

namespace Sheltered

/-- A session with the same globals, whose contexts and values shelter them. -/
theorem of_stack {session after : Session} (sheltered : session.Sheltered)
    (globals : after.globals = session.globals)
    (size : session.heap.records.size ≤ after.heap.records.size)
    (heap : after.heap.Among (· ≠ session.globals))
    (stack : ∀ activation ∈ after.stack, activation.Among (· ≠ session.globals) ∧
      activation.context.Sheltered session.globals) : after.Sheltered where
  present := globals ▸ Nat.lt_of_lt_of_le sheltered.present size
  among := by
    rw [globals]
    exact ⟨heap, fun activation member => (stack activation member).1⟩
  contexts := by
    rw [globals]
    exact fun activation member => (stack activation member).2

variable {session : Session} (sheltered : session.Sheltered)

include sheltered

theorem stack_fine : ∀ activation ∈ session.stack, activation.Among (· ≠ session.globals) ∧
    activation.context.Sheltered session.globals :=
  fun activation member =>
    ⟨sheltered.among.stack activation member, sheltered.contexts activation member⟩

/-- The time from which the time limit counts is no matter of shelter. -/
theorem start (startedAt : Option Nat) : ({ session with startedAt } : Session).Sheltered :=
  sheltered.of_stack rfl (Nat.le_refl _) sheltered.among.heap sheltered.stack_fine

theorem advance : session.advance.2.Sheltered := by
  have turned := advance_turned sheltered.among
  obtain ⟨heap, stack⟩ := turned.among sheltered.among.heap sheltered.among.stack
    fun top member owns => (sheltered.contexts top (List.mem_of_head? member)).owned owns
  obtain ⟨size, contexts⟩ := turned.sheltered sheltered.present sheltered.contexts
  exact sheltered.of_stack session.advance_settings.globals size heap fun activation member =>
    ⟨stack activation member, contexts activation member⟩

theorem modifyContext {change : Context → Context}
    (changed : ∀ context : Context, context.Among (· ≠ session.globals) →
      context.KeepsScope (change context) ∧ (change context).Among (· ≠ session.globals)) :
    (session.modifyContext change).Sheltered := by
  unfold Session.modifyContext
  split
  · exact sheltered
  · next top below stack =>
      obtain ⟨topFine, belowFine⟩ := List.forall_mem_cons.mp (stack ▸ sheltered.stack_fine)
      obtain ⟨scope, among⟩ := changed top.context topFine.1.context
      exact sheltered.of_stack rfl (Nat.le_refl _) sheltered.among.heap
        (List.forall_mem_cons.mpr
          ⟨⟨⟨among, topFine.1.activity⟩, topFine.2.keeps scope⟩, belowFine⟩)

theorem releaseAll (stack : List Activation) :
    (Session.releaseAll stack session.heap).Among (· ≠ session.globals) ∧
      session.heap.records.size ≤ (Session.releaseAll stack session.heap).records.size := by
  have among := sheltered.among.heap
  unfold Session.releaseAll
  generalize session.heap = heap at among
  induction stack generalizing heap with
  | nil => exact ⟨among, Nat.le_refl _⟩
  | cons activation stack ih =>
      have released : heap.Writes (fun _ => True) (activation.context.release heap) :=
        .release _ _ fun _ => trivial
      obtain ⟨rest, size⟩ := ih _ (among.release activation.context)
      exact ⟨rest, Nat.le_trans released.size size⟩

theorem run {after : Session} {script : Script} (parsed : script.Parsed)
    (started : session.run script = .ok after) : after.Sheltered := by
  unfold Session.run at started
  split at started
  · cases started
  · cases started
    obtain ⟨among, size⟩ := sheltered.releaseAll session.stack
    have scope := (Context.base script session.globals).keepsScope_enter script.first none none none
    have base : (Context.base script session.globals).Sheltered session.globals :=
      ⟨fun nested => (nested rfl).elim, fun _ => rfl⟩
    exact sheltered.of_stack rfl size among (List.forall_mem_singleton.mpr
      ⟨⟨(Context.Among.new parsed.plain).enter _ _ _ _, trivial⟩, base.keeps scope⟩)

/-- The session in which a call of the host begins. -/
theorem enter {bound : Session} {function : FunctionRef} {script : Script}
    {entry : Option StatementRef} {arguments : List Value} {receiver : Option Value}
    {context : Context} (body : (session.heap.function function).body = .script script entry)
    (argumentsAmong : ∀ argument ∈ arguments, argument.Among (· ≠ session.globals))
    (receiverAmong : ScopeAmong (· ≠ session.globals) receiver)
    (called : session.callContext script entry (session.heap.function function).parameters
      (session.heap.function function).globals arguments receiver = (context, bound)) :
    (bound.push context).Sheltered ∧ context.kind ≠ .base ∧ bound.stack = session.stack ∧
      bound.bindings = session.bindings := by
  obtain ⟨opened, among, heap, writes⟩ := callContext_among sheltered.among.heap
    (sheltered.among.heap.scripts function script entry body) entry
    (session.heap.function function).parameters (session.heap.function function).globals
    argumentsAmong receiverAmong
  obtain ⟨_, _, same, _⟩ := session.callContext_keeps script entry
    (session.heap.function function).parameters (session.heap.function function).globals
    arguments receiver
  have stack : bound.stack = session.stack := congrArg (fun opened => opened.2.stack)
    (called.symm.trans same)
  have globals : bound.globals = session.globals := congrArg (fun opened => opened.2.globals)
    (called.symm.trans same)
  rw [called] at opened among heap writes
  refine ⟨sheltered.of_stack globals writes.size heap
    (List.forall_mem_cons.mpr ⟨⟨⟨among, trivial⟩, opened.sheltered sheltered.present⟩, ?_⟩),
    opened.kind, stack, bindings_eq globals (writes.kept _ sheltered.present id)⟩
  rw [stack]
  exact sheltered.stack_fine

theorem pop : session.pop.2.Sheltered ∧ session.pop.2.bindings = session.bindings := by
  unfold Session.pop
  split
  · exact ⟨sheltered, rfl⟩
  · next top below stack =>
      obtain ⟨topFine, belowFine⟩ := List.forall_mem_cons.mp (stack ▸ sheltered.stack_fine)
      have released : session.heap.Writes (· ≠ session.globals)
          (top.context.release session.heap) := .release _ _ topFine.2.owned
      exact ⟨sheltered.of_stack rfl released.size (sheltered.among.heap.release top.context)
        belowFine, released.kept _ sheltered.present fun other => other rfl⟩

theorem clear : session.clear.Sheltered := by
  obtain ⟨among, size⟩ := sheltered.releaseAll session.stack
  exact sheltered.of_stack rfl size among (List.forall_mem_nil _)

end Sheltered

/-!
## The first session
-/

/-- Installing native functions makes no value that is a record. -/
private theorem installAll_among {records : RecordRef → Prop} {heap : Heap} (target : RecordRef)
    (functions : List (String × List String × NativeAction)) (among : heap.Among records) :
    (heap.installAll target functions).Among records ∧
      (heap.installAll target functions).records.size = heap.records.size := by
  unfold Heap.installAll
  induction functions generalizing heap with
  | nil => exact ⟨among, rfl⟩
  | cons function functions ih =>
      have installed : (heap.installNative target function.1 function.2.1 function.2.2).Among
          records :=
        (among.newFunction (by rintro script entry ⟨⟩)).setMember (by trivial)
      obtain ⟨rest, size⟩ := ih installed
      exact ⟨rest, size.trans (by simp [Heap.installNative, Heap.newFunction, Heap.setMember,
        Heap.modifyRecord])⟩

/-- The only record that is a value in a new session is the one of the methods. -/
theorem heap_new_among {records : RecordRef → Prop} (object : records ⟨1⟩)
    (timeLimit : Option Nat) :
    (Session.new timeLimit).heap.Among records ∧ (Session.new timeLimit).heap.records.size = 2 := by
  have empty : Heap.empty.Among records := by
    constructor
    · intro reference value member
      simp [Heap.array, Heap.empty] at member
    · intro reference name value found
      simp [Heap.record, Heap.empty, Record.get?_empty] at found
    · intro reference script entry body
      cases body
  obtain ⟨library, librarySize⟩ := installAll_among ⟨0⟩ libraryFunctions empty.newRecord
  generalize made : Heap.installAll _ _ libraryFunctions = installed at library librarySize
  have one : installed.records.size = 1 := librarySize
  obtain ⟨methods, methodsSize⟩ :=
    installAll_among ⟨installed.records.size⟩ libraryMethods library.newRecord
  have objectAmong : (Value.record ⟨installed.records.size⟩).Among records := by
    rw [one]
    exact object
  have heap : (Session.new timeLimit).heap =
      (Heap.installAll (installed.newRecord .empty).2 ⟨installed.records.size⟩
        libraryMethods).setMember ⟨0⟩ objectName (.record ⟨installed.records.size⟩) := by
    rw [← made]
    rfl
  rw [heap]
  refine ⟨methods.setMember objectAmong, ?_⟩
  simp only [Heap.setMember, Heap.modifyRecord, Array.size_modify, methodsSize]
  simp [Heap.newRecord, one]

theorem sheltered_new (timeLimit : Option Nat) : (Session.new timeLimit).Sheltered := by
  have object : (⟨1⟩ : RecordRef) ≠ ⟨0⟩ := by simp
  obtain ⟨among, size⟩ :=
    @heap_new_among (· ≠ (Session.new timeLimit).globals) object timeLimit
  refine ⟨?_, ⟨among, List.forall_mem_nil _⟩, List.forall_mem_nil _⟩
  rw [size]
  exact Nat.zero_lt_two

/-!
## Turns and runs of nested contexts
-/

/-- All contexts above `below` are nested ones. -/
def Nested (below stack : List Activation) : Prop :=
  ∃ upper, stack = upper ++ below ∧ ∀ activation ∈ upper, activation.context.kind ≠ .base

/-- What a turn does to the globals, seen from the stack it begins with. -/
theorem Turned.bindings {globals : RecordRef} {stack after : List Activation}
    {heap grown : Heap} {progress : Progress}
    (turned : Turned (· ≠ globals) stack heap progress after grown)
    (present : globals.address < heap.records.size)
    (contexts : ∀ activation ∈ stack, activation.context.Sheltered globals) :
    grown.record globals = heap.record globals ∨
      (∃ top below, stack = top :: below ∧ top.context.kind = .base) ∨
      ∃ top caller below name span, stack = top :: caller :: below ∧
        top.activity = .resting ∧ top.context.current = none ∧ caller.context.kind = .base ∧
        caller.activity = .declaring name span ∧
        progress = .working ∧ after = ⟨caller.context.proceed, .resting⟩ :: below ∧
        grown.record globals = (heap.record globals).insert name (.record top.context.names) := by
  cases turned with
  | rests => exact .inl rfl
  | @goes popped below old new heap grown _ scope _ _ writes =>
      by_cases base : popped = [] ∧ old.context.kind = .base
      · exact .inr (.inl ⟨old, below, by rw [base.1]; rfl, base.2⟩)
      · refine .inl (writes.kept globals present ?_)
        rintro (other | ⟨alone, names⟩ | ⟨activation, member, owns, names⟩)
        · exact other rfl
        · exact (contexts old (by simp)).nested (fun kind => base ⟨alone, kind⟩) names.symm
        · exact (contexts activation (by simp [member])).owned owns names.symm
  | @opens below old new context heap grown scope _ _ _ _ writes =>
      by_cases base : old.context.kind = .base
      · exact .inr (.inl ⟨old, below, rfl, base⟩)
      · refine .inl (writes.kept globals present ?_)
        rintro (other | names)
        · exact other rfl
        · exact (contexts old (by simp)).nested base names.symm
  | @declares top caller below heap name span rests ended owns waits =>
      by_cases names : caller.context.names = globals
      · have base : caller.context.kind = .base :=
          Classical.byContradiction fun kind => (contexts caller (by simp)).nested kind names
        refine .inr (.inr ⟨top, caller, below, name, span, rfl, rests, ended, base, waits, rfl,
          rfl, ?_⟩)
        have written := heap.record_modifyRecord globals globals
          (·.insert name (.record top.context.names)) present
        rw [Context.bind, names, Heap.setMember, written, if_pos rfl]
      · have writes : heap.Writes (· = caller.context.names)
            (caller.context.bind heap name (.record top.context.names)) :=
          .modifyRecord heap _ rfl
        exact .inl (writes.kept globals present fun same => names same.symm)

section

variable {below stack after popped rest : List Activation} {old new : Activation}

/-- A context that has as many others below it as `below` has is a nested one. -/
theorem Nested.under (nested : Nested below (popped ++ old :: rest))
    (deep : below.length ≤ rest.length) : Nested below rest ∧ old.context.kind ≠ .base := by
  obtain ⟨upper, same, kinds⟩ := nested
  rcases List.append_eq_append_iff.mp same with ⟨inner, rfl, split⟩ | ⟨inner, _, split⟩
  · cases inner with
    | nil =>
        have lengths := congrArg List.length split
        simp only [List.length_cons, List.nil_append] at lengths
        omega
    | cons first inner =>
        obtain ⟨rfl, rfl⟩ := List.cons.inj split
        exact ⟨⟨inner, rfl, fun activation member => kinds activation (by simp [member])⟩,
          kinds old (by simp)⟩
  · have lengths := congrArg List.length split
    simp only [List.length_cons, List.length_append] at lengths
    omega

theorem Nested.cons {top : Activation} (nested : Nested below rest)
    (kind : top.context.kind ≠ .base) : Nested below (top :: rest) := by
  obtain ⟨upper, rfl, kinds⟩ := nested
  exact ⟨top :: upper, rfl, List.forall_mem_cons.mpr ⟨kind, kinds⟩⟩

theorem Turned.nested {records : RecordRef → Prop} {heap grown : Heap} {progress : Progress}
    (turned : Turned records stack heap progress after grown) (nested : Nested below stack)
    (deep : below.length < stack.length) (still : below.length < after.length) :
    Nested below after := by
  cases turned with
  | rests => exact nested
  | goes scope =>
      obtain ⟨rest, kind⟩ := nested.under (Nat.le_of_lt_succ still)
      exact rest.cons (scope.kind ▸ kind)
  | @opens _ old _ _ _ _ scope _ opened =>
      obtain ⟨rest, kind⟩ := @Nested.under below [] _ old nested (Nat.le_of_lt_succ deep)
      exact (rest.cons (scope.kind ▸ kind)).cons opened.kind
  | @declares top caller =>
      obtain ⟨rest, kind⟩ := @Nested.under below [top] _ caller nested (Nat.le_of_lt_succ still)
      exact rest.cons (caller.context.keepsScope_proceed.kind ▸ kind)

end

/-- A context that a turn puts above the others has been opened in this turn. -/
theorem Turned.opened {records : RecordRef → Prop} {stack after : List Activation}
    {heap grown : Heap} {progress : Progress}
    (turned : Turned records stack heap progress after grown) {top : Activation}
    {rest : List Activation} (opens : after = top :: rest) (longer : stack.length ≤ rest.length) :
    Opened heap grown top.context := by
  cases turned with
  | rests =>
      rw [opens, List.length_cons] at longer
      omega
  | goes =>
      obtain ⟨rfl, rfl⟩ := List.cons.inj opens
      rw [List.length_append, List.length_cons] at longer
      omega
  | opens _ _ opened =>
      obtain ⟨rfl, rfl⟩ := List.cons.inj opens
      exact opened
  | declares =>
      obtain ⟨rfl, rfl⟩ := List.cons.inj opens
      rw [List.length_cons, List.length_cons] at longer
      omega

/-- A turn of a nested context changes no global, unless it is the last one of a block
whose record a base context declares. -/
theorem Sheltered.advance_bindings {session : Session} (sheltered : session.Sheltered)
    {below : List Activation} (nested : Nested below session.stack)
    (deep : below.length < session.stack.length) :
    session.advance.2.bindings = session.bindings ∨
      ∃ top caller rest name span, session.stack = top :: caller :: rest ∧ below = caller :: rest ∧
        caller.context.kind = .base ∧ caller.activity = .declaring name span ∧
        session.advance.1 = .working ∧
        session.advance.2.stack = ⟨caller.context.proceed, .resting⟩ :: rest ∧
        session.advance.2.bindings = session.bindings.insert name (.record top.context.names) := by
  obtain ⟨upper, stack, kinds⟩ := nested
  have turned := (advance_turned sheltered.among).bindings sheltered.present sheltered.contexts
  unfold bindings
  rw [session.advance_settings.globals]
  rcases turned with same | ⟨top, rest, same, base⟩ |
    ⟨top, caller, rest, name, span, same, _, _, base, waits, working, after, bound⟩
  · exact .inl same
  · cases upper with
    | nil =>
        rw [stack] at deep
        exact (Nat.lt_irrefl _ deep).elim
    | cons first upper =>
        obtain ⟨rfl, _⟩ := List.cons.inj (stack.symm.trans same)
        exact (kinds first List.mem_cons_self base).elim
  · refine .inr ⟨top, caller, rest, name, span, same, ?_, base, waits, working, after, bound⟩
    rw [same] at stack
    cases upper with
    | nil =>
        rw [same, ← List.nil_append below, ← stack] at deep
        exact (Nat.lt_irrefl _ deep).elim
    | cons first upper =>
        obtain ⟨_, behind⟩ := List.cons.inj stack
        cases upper with
        | nil => exact behind.symm
        | cons second upper =>
            obtain ⟨rfl, _⟩ := List.cons.inj behind
            exact (kinds caller (by simp) base).elim

/-- While a context that nobody waits for runs above the others, no global changes. -/
theorem Sheltered.runToEnd_bindings {below : List Activation} (free : Free below) (turns : Nat)
    {session : Session} (sheltered : session.Sheltered) (nested : Nested below session.stack)
    (above : Above below session.stack) :
    (session.runToEnd turns).2.Sheltered ∧
      (session.runToEnd turns).2.bindings = session.bindings := by
  induction turns generalizing session with
  | zero => exact ⟨sheltered, rfl⟩
  | succ turns ih =>
      have next := sheltered.advance
      have same : session.advance.2.bindings = session.bindings := by
        rcases sheltered.advance_bindings nested above.length_lt with same |
          ⟨_, caller, rest, _, _, _, under, _, waits, _⟩
        · exact same
        · have active := free caller (by rw [under]; rfl)
          simp only [Activation.awaits, waits] at active
          cases active
      have turn := advance_above above
      have turned := advance_turned sheltered.among
      unfold runToEnd
      generalize session.advance = answer at next same turn turned
      obtain ⟨progress, after⟩ := answer
      cases turn with
      | stays above' =>
          obtain ⟨last, bindings⟩ := ih next
            (turned.nested nested above.length_lt above'.length_lt) above'
          exact ⟨last, bindings.trans same⟩
      | @returned after caller resumed rest under resumes stack =>
          have active := free caller (by rw [under]; rfl)
          cases resumes <;> cases active
      | ended | failed | endless => exact ⟨next, same⟩

/-- A run that is back at its depth goes no further. -/
theorem returnTo_reached {depth turns : Nat} {session : Session} (reached : session.depth ≤ depth) :
    (session.returnTo depth turns).2 = session ∧
      ∀ failure, (session.returnTo depth turns).1 ≠ .failed failure := by
  cases turns with
  | zero =>
      refine ⟨rfl, ?_⟩
      rintro _ ⟨⟩
  | succ turns =>
      unfold returnTo
      rw [if_pos reached]
      refine ⟨rfl, ?_⟩
      rintro _ ⟨⟩

/-- What a nested run, for which `caller` waits, may do to the globals: nothing, or a block
has come to its end and the base context that declares its record binds it. -/
def Binds (caller : Activation) (depth : Nat) (before : Record) :
    Answer Unit × Session → Prop :=
  fun ran => ran.2.bindings = before ∨
    caller.context.kind = .base ∧ ran.2.depth ≤ depth ∧ (∀ failure, ran.1 ≠ .failed failure) ∧
      ∃ name span members, caller.activity = .declaring name span ∧
        ran.2.bindings = before.insert name (.record members)

theorem Sheltered.returnTo_bindings {caller : Activation} {rest : List Activation} {turns : Nat}
    {session : Session} (sheltered : session.Sheltered)
    (nested : Nested (caller :: rest) session.stack)
    (above : Above (caller :: rest) session.stack) :
    Binds caller (rest.length + 1) session.bindings (session.returnTo (rest.length + 1) turns) := by
  induction turns generalizing session with
  | zero => exact .inl rfl
  | succ turns ih =>
      have deeper : ¬session.depth ≤ rest.length + 1 := Nat.not_le_of_lt above.length_lt
      have next := sheltered.advance
      have bindings := sheltered.advance_bindings nested above.length_lt
      have turn := advance_above above
      have turned := advance_turned sheltered.among
      unfold returnTo
      rw [if_neg deeper]
      generalize session.advance = answer at next bindings turn turned
      obtain ⟨progress, after⟩ := answer
      rcases bindings with same |
        ⟨top, caller', rest', name, span, stack, under, base, waits, working, left, bound⟩
      · cases turn with
        | stays above' =>
            rw [← same]
            exact ih next (turned.nested nested above.length_lt above'.length_lt) above'
        | @returned after caller resumed rest under resumes stack =>
            obtain ⟨rfl, rfl⟩ := List.cons.inj under
            obtain ⟨reached, _⟩ := @returnTo_reached (rest.length + 1) turns after
              (by simp [depth, stack])
            exact .inl ((congrArg bindings reached).trans same)
        | ended | failed | endless => exact .inl same
      · obtain ⟨rfl, rfl⟩ := List.cons.inj under
        cases working
        have depth : after.depth = rest.length + 1 := congrArg List.length left
        obtain ⟨reached, unfailed⟩ := @returnTo_reached (rest.length + 1) turns after
          (Nat.le_of_eq depth)
        refine .inr ⟨base, ?_, unfailed, name, span, top.context.names, waits, ?_⟩
        · exact Nat.le_of_eq ((congrArg Session.depth reached).trans depth)
        · exact (congrArg Session.bindings reached).trans bound

/-!
## Calls of a host
-/

/-- What a call of the host leaves behind, when it is over and while it is under way: no
global has changed, and the session is as fit for the next call. -/
structure CallKeeps (session after : Session) : Prop where
  sheltered : after.Sheltered
  free : Free after.stack
  bindings : after.bindings = session.bindings

namespace Sheltered

variable {session : Session}

theorem runNative (sheltered : session.Sheltered) (free : Free session.stack)
    (action : NativeAction) {arguments : List Value}
    (argumentsAmong : ∀ argument ∈ arguments, argument.Among (· ≠ session.globals))
    {receiver : Option Value} (receiverAmong : ScopeAmong (· ≠ session.globals) receiver) :
    session.CallKeeps (session.runNative action arguments receiver).2 := by
  have native := native_among sheltered.among.heap action argumentsAmong receiverAmong
  have stack := (session.runNative_keeps action arguments receiver).stack
  have globals := (session.runNative_settings action arguments receiver).globals
  exact {
    sheltered := sheltered.of_stack globals
      (Nat.le_of_eq (congrArg Array.size native.kept.symm)) native.heap
      (stack ▸ sheltered.stack_fine)
    free := stack ▸ free
    bindings := bindings_eq globals (by unfold Heap.record; rw [native.kept]) }

/-- A nested context that nobody waits for is pushed, runs for a while, and is taken off
again when it has come to its end. -/
theorem runContext {bound : Session} {context : Context}
    (pushed : (bound.push context).Sheltered) (kind : context.kind ≠ .base)
    (free : Free bound.stack) (turns : Nat) :
    bound.CallKeeps (bound.runContext turns context).2 := by
  have begun : ({ bound with startedAt := some bound.now }.push context).Sheltered :=
    pushed.start (some bound.now)
  have above : Above bound.stack
      ({ bound with startedAt := some bound.now }.push context).stack := .single rfl
  obtain ⟨ran, kept⟩ := begun.runToEnd_bindings free turns
    ⟨[⟨context, .resting⟩], rfl, List.forall_mem_singleton.mpr kind⟩ above
  have active := runToEnd_free turns above.free
  simp only [Session.runContext]
  generalize ended : Session.runToEnd turns _ = answer at ran kept active
  obtain ⟨answer, after⟩ := answer
  have left : ({ after with startedAt := bound.startedAt } : Session).Sheltered :=
    ran.start bound.startedAt
  obtain ⟨popped, unchanged⟩ := left.pop
  have back (returned : answer ≠ .unfinished) :
      Free ({ after with startedAt := bound.startedAt } : Session).pop.2.stack := by
    obtain ⟨top, _, last⟩ := runToEnd_above free above ended returned
    simp only [last]
    exact free
  cases answer with
  | value | failed => exact ⟨popped, back (by simp), unchanged.trans kept⟩
  | unfinished => exact ⟨ran, active, kept⟩

/-- A host calls a function: the session stays sheltered, and no global changes. -/
theorem call (sheltered : session.Sheltered) (free : Free session.stack) (turns : Nat)
    (function : FunctionRef) {arguments : List Value} {receiver : Option Value}
    (argumentsAmong : ∀ argument ∈ arguments, argument.Among (· ≠ session.globals))
    (receiverAmong : ScopeAmong (· ≠ session.globals) receiver) :
    session.CallKeeps (session.call turns function arguments receiver).2 := by
  unfold Session.call
  dsimp only
  split
  · exact ⟨sheltered, free, rfl⟩
  · split
    · next action _ =>
        have native := sheltered.runNative free action argumentsAmong receiverAmong
        generalize session.runNative action arguments receiver = answer at native
        obtain ⟨answer, after⟩ := answer
        cases answer <;> exact native
    · next script entry body =>
        generalize called : session.callContext script entry _ _ arguments receiver = opened
        obtain ⟨context, bound⟩ := opened
        obtain ⟨pushed, kind, stack, same⟩ :=
          sheltered.enter body argumentsAmong receiverAmong called
        have ran := runContext pushed kind (stack ▸ free) turns
        exact ⟨ran.sheltered, ran.free, ran.bindings.trans same⟩

end Sheltered

theorem Hosted.sheltered {session : Session} (hosted : session.Hosted) :
    session.Sheltered ∧ Free session.stack := by
  induction hosted with
  | new timeLimit => exact ⟨sheltered_new timeLimit, by simp [Free, Session.new]⟩
  | advance _ ih => exact ⟨ih.1.advance, advance_free ih.2⟩
  | run _ parsed started ih =>
      refine ⟨ih.1.run parsed started, ?_⟩
      rw [(run_ok started).1]
      simp [Free, Activation.awaits]
  | call _ turns function arguments receiver ih =>
      have kept := ih.1.call ih.2 turns function arguments receiver
      exact ⟨kept.sheltered, kept.free⟩
  | clear _ ih => exact ⟨ih.1.clear, by simp [Free, Session.clear]⟩
  | breakOut _ count ih =>
      exact ⟨ih.1.modifyContext fun context among =>
        ⟨context.keepsScope_breakOut count, among.breakOut count⟩, modifyContext_free _ ih.2⟩
  | nextLoopPass _ ih =>
      exact ⟨ih.1.modifyContext fun context among =>
        ⟨context.keepsScope_nextLoopPass, among.nextLoopPass⟩, modifyContext_free _ ih.2⟩
  | reset _ ih =>
      exact ⟨ih.1.modifyContext fun context among => ⟨⟨rfl, ⟨rfl, rfl⟩, rfl⟩, among.reset⟩,
        modifyContext_free _ ih.2⟩
  | other _ stack globals size among ih =>
      exact ⟨ih.1.of_stack globals size among (stack ▸ ih.1.stack_fine), stack ▸ ih.2⟩

/-!
## Calls and record blocks
-/

/-- The next turn is one of a base context: it goes on with a statement, or its statement
gets the record that it declares. -/
def ActsInBase (session : Session) : Prop :=
  ∃ top below, session.stack = top :: below ∧
    (top.context.kind = .base ∨
      top.activity = .resting ∧ top.context.current = none ∧
        ∃ caller rest name span, below = caller :: rest ∧ caller.context.kind = .base ∧
          caller.activity = .declaring name span)

theorem Sheltered.bindings_of_writes {session after : Session} (sheltered : session.Sheltered)
    (globals : after.globals = session.globals)
    (writes : session.heap.Writes (OwnedBy session.stack) after.heap) :
    after.bindings = session.bindings := by
  refine bindings_eq globals (writes.kept _ sheltered.present ?_)
  rintro ⟨activation, member, owns, names⟩
  exact (sheltered.contexts activation member).owned owns names.symm

/-- The turn in which a statement calls a function, which may be one of a base context. -/
theorem Sheltered.call_bindings {session : Session} (sheltered : session.Sheltered)
    {context : Context} {continuation : Continuation} {below : List Activation}
    {request : CallRequest} {scope : Option Value} {evaluation : Evaluation} {heap : Heap}
    (stack : session.stack = ⟨context, .evaluating continuation⟩ :: below)
    (called : context.evaluation.advance session.heap = (.call request scope, evaluation, heap)) :
    session.advance.2.bindings = session.bindings := by
  have among : Activation.Among (· ≠ session.globals) ⟨context, .evaluating continuation⟩ :=
    sheltered.among.stack _ (stack ▸ List.mem_cons_self)
  obtain ⟨requestAmong, _, grown⟩ := among.context.evaluation.advance sheltered.among.heap
  obtain ⟨place, objects⟩ := context.evaluation.advance_keeps session.heap
  rw [called] at requestAmong grown objects place
  have kept : session.heap.Writes (OwnedBy session.stack) heap := .of_records objects.records
  have writes := @beginCall_writes _ { session with stack := session.stack, heap } grown request
    requestAmong.1 scope { context with evaluation } continuation below
  have turn : session.advance = beginCall { session with heap } request scope
      { context with evaluation } continuation below := by
    simp only [Session.advance, stack, called]
  refine sheltered.bindings_of_writes session.advance_settings.globals (kept.trans ?_)
  rw [turn]
  refine writes.mono ?_
  rintro reference ⟨activation, member, owns, names⟩
  rw [stack]
  rcases List.mem_cons.mp member with rfl | member
  · exact ⟨_, List.mem_cons_self, owns, names.trans (congrArg ScopeChain.names place.chain)⟩
  · exact ⟨activation, List.mem_cons_of_mem _ member, owns, names⟩

/-- The turn in which a statement opens the block of a record. -/
theorem Sheltered.declare_bindings {session : Session} (sheltered : session.Sheltered)
    {context : Context} {below : List Activation} {this : StatementRef} {name : String}
    {body : Option StatementRef} {span : Span}
    (stack : session.stack = ⟨context, .resting⟩ :: below) (current : context.current = some this)
    (found : context.script.statement? this = some (.record name body span)) :
    session.advance.2.bindings = session.bindings := by
  refine sheltered.bindings_of_writes session.advance_settings.globals ?_
  simp only [Session.advance, stack]
  split
  · exact @raise_writes _ { session with stack := session.stack, now := session.now + 1 }
      sheltered.among.heap _ _ _
  · simp only [beginNext, current, found]
    exact .newRecord _ _

/-- A statement opens a context above its own, and waits for it. -/
theorem Sheltered.awaitReturn_binds {session : Session} (sheltered : session.Sheltered)
    {caller top : Activation} {below : List Activation} (stack : session.stack = top :: below)
    (begun : TurnOf caller below session.advance)
    (same : session.advance.2.bindings = session.bindings) (turns : Nat) :
    Binds caller session.depth session.bindings
      (awaitReturn session.depth turns session.advance) := by
  have next := sheltered.advance
  have turned := advance_turned sheltered.among
  have depth : session.depth = below.length + 1 := congrArg List.length stack
  rw [stack] at turned
  rw [depth]
  generalize session.advance = answer at begun same next turned
  obtain ⟨progress, after⟩ := answer
  cases begun with
  | @opens after opened active stands =>
      have kind := (turned.opened stands (by simp)).kind
      rw [← same]
      exact next.returnTo_bindings ⟨[opened], stands, List.forall_mem_singleton.mpr kind⟩
        ⟨opened, [], stands, active, List.forall_mem_nil _⟩
  | @resumes after resumed resumes stands =>
      obtain ⟨reached, _⟩ := @returnTo_reached (below.length + 1) turns after
        (by simp [Session.depth, stands])
      exact .inl ((congrArg bindings reached).trans same)
  | failed => exact .inl same

/-- Nested contexts never bind globals, in every session that a host can reach. A turn
changes them only if a base context takes it. A function that a host calls changes none
of them, in however many turns and whatever it comes to; nor does a function that a
statement calls. While the block of a record is open, and when it fails, they stay as they
were; when it has come to its end, a base context that declares the record binds its name
and no other. -/
theorem nested_contexts_keep_globals {session : Session} (hosted : session.Hosted) :
    (¬session.ActsInBase → session.advance.2.bindings = session.bindings) ∧
    (∀ turns function arguments receiver answer after,
      (∀ argument ∈ arguments, argument.Among (· ≠ session.globals)) →
        ScopeAmong (· ≠ session.globals) receiver →
        session.call turns function arguments receiver = (answer, after) →
          after.bindings = session.bindings) ∧
    (∀ turns context continuation below request scope evaluation heap answer after,
      session.stack = ⟨context, .evaluating continuation⟩ :: below →
        context.evaluation.advance session.heap = (.call request scope, evaluation, heap) →
        awaitReturn session.depth turns session.advance = (answer, after) →
          after.bindings = session.bindings) ∧
    ∀ turns context below this name body span answer after,
      session.stack = ⟨context, .resting⟩ :: below → context.current = some this →
        context.script.statement? this = some (.record name body span) →
        awaitReturn session.depth turns session.advance = (answer, after) →
          after.bindings = session.bindings ∨
            context.kind = .base ∧ after.depth ≤ session.depth ∧
              (∀ failure, answer ≠ .failed failure) ∧
              ∃ members, after.bindings = session.bindings.insert name (.record members) := by
  obtain ⟨sheltered, free⟩ := hosted.sheltered
  refine ⟨fun nested => ?_, ?_, ?_, ?_⟩
  · have turned := (advance_turned sheltered.among).bindings sheltered.present sheltered.contexts
    unfold bindings
    rw [session.advance_settings.globals]
    rcases turned with same | ⟨top, below, stack, base⟩ |
      ⟨top, caller, below, name, span, stack, rests, ended, base, waits, _⟩
    · exact same
    · exact (nested ⟨top, below, stack, .inl base⟩).elim
    · exact (nested ⟨top, caller :: below, stack, .inr ⟨rests, ended, caller, below, name, span,
        rfl, base, waits⟩⟩).elim
  · intro turns function arguments receiver answer after argumentsAmong receiverAmong called
    have same := (sheltered.call free turns function argumentsAmong receiverAmong).bindings
    rwa [called] at same
  · intro turns context continuation below request scope evaluation heap answer after stack
      called ran
    have binds := sheltered.awaitReturn_binds stack (advance_calls stack called)
      (sheltered.call_bindings stack called) turns
    rw [ran] at binds
    rcases binds with same | ⟨_, _, _, name, span, members, waits, _⟩
    · exact same
    · cases waits
  · intro turns context below this name body span answer after stack current found ran
    have binds := sheltered.awaitReturn_binds stack (advance_declares stack current found)
      (sheltered.declare_bindings stack current found) turns
    rw [ran] at binds
    rcases binds with same | ⟨base, depth, unfailed, _, _, members, ⟨⟩, inserted⟩
    · exact .inl same
    · exact .inr ⟨base, depth, unfailed, members, inserted⟩

/-- The first statement of this script defines `f`, which binds a name and which a host may
then call. The next one opens a block that calls `f` in its turn, and only `r` is bound. -/
theorem nested_contexts_keep_globals_in_record :
    ∃ session : Session, session.Hosted ∧
      (∃ after, session.call 40 ⟨8⟩ [.text "a"] none = (.value (.text "a"), after) ∧
        after.bindings = session.bindings) ∧
      ∃ after members, awaitReturn session.depth 40 session.advance = (.value (), after) ∧
        after.bindings = session.bindings.insert "r" (.record members) := by
  have passed : ((Script.ofSource
      "def f(x)\ny = x\nreturn y\nend\nrecord r\nz = f(1)\nend\n").toOption.any
      fun script => ((Session.new none).run script).toOption.any fun started =>
        let session := started.advance.2
        returns (session.call 40 ⟨8⟩ [.text "a"] none) (fun value _ => value.isText "a") &&
        session.opensRecord "r" &&
        returns (awaitReturn session.depth 40 session.advance) fun _ after =>
          after.bindings.contains "r" && !session.bindings.contains "r") = true := by
    decide +kernel
  obtain ⟨script, started, accepted, begun, passed⟩ := eq_of_runs passed
  simp only [Bool.and_eq_true] at passed
  obtain ⟨⟨called, opens⟩, closed⟩ := passed
  have hosted : started.advance.2.Hosted :=
    .advance (.run (.new none) (Script.parsed_ofSource accepted) begun)
  obtain ⟨_, calls, _, records⟩ := nested_contexts_keep_globals hosted
  obtain ⟨value, returned, call, isText⟩ := eq_of_returns called
  obtain rfl := Value.eq_of_isText isText
  obtain ⟨_, _, _, _, _, stack, current, found⟩ := eq_of_opensRecord opens
  obtain ⟨_, after, ran, bindings⟩ := eq_of_returns closed
  rw [Bool.and_eq_true, Bool.not_eq_true'] at bindings
  refine ⟨_, hosted, ⟨returned, call, ?_⟩, after, ?_⟩
  · exact calls _ _ _ _ _ _ (List.forall_mem_singleton.mpr (by trivial)) .none call
  · rcases records _ _ _ _ _ _ _ _ _ stack current found ran with
      unchanged | ⟨_, _, _, members, bound⟩
    · rw [unchanged, bindings.2] at bindings
      cases bindings.1
    · exact ⟨members, ran, bound⟩

end Session

end ScriptEngine
