import ScriptEngine.Proofs.Machine.Located

/-!
# Owned names are out of reach

A context that owns its names clears them when it is dropped. That is never noticed: while a
context owns its names, no value is the record of these names, wherever the session or its
host keeps values, and no function looks names up in it. A record's block gives its names
away when it is over, and only then they become a value; from this turn on no context owns
them (`Session.owned_names_are_out_of_reach`).
-/

set_option autoImplicit false

namespace ScriptEngine

/-- No function looks names up in any record but the globals. -/
def Heap.Captures (globals : RecordRef) (heap : Heap) : Prop :=
  ∀ function ∈ heap.functions, function.globals = none ∨ function.globals = some globals

theorem Heap.Captures.of_functions {globals : RecordRef} {before after : Heap}
    (captures : before.Captures globals) (same : after.functions = before.functions) :
    after.Captures globals :=
  fun function member => captures function (same ▸ member)

theorem Heap.Captures.newFunction {globals : RecordRef} {heap : Heap}
    (captures : heap.Captures globals) {function : Function} (native : function.globals = none) :
    (heap.newFunction function).2.Captures globals := by
  intro other member
  rcases Array.mem_push.mp member with old | rfl
  · exact captures other old
  · exact .inl native

theorem Heap.Captures.installAll {globals : RecordRef} {heap : Heap}
    (captures : heap.Captures globals) (target : RecordRef)
    (functions : List (String × List String × NativeAction)) :
    (heap.installAll target functions).Captures globals := by
  unfold Heap.installAll
  induction functions generalizing heap with
  | nil => exact captures
  | cons function functions ih => exact ih ((captures.newFunction rfl).of_functions rfl)

theorem Heap.Among.releaseAll {records : RecordRef → Prop} (stack : List Activation) {heap : Heap}
    (among : heap.Among records) : (Session.releaseAll stack heap).Among records := by
  unfold Session.releaseAll
  induction stack generalizing heap with
  | nil => exact among
  | cons activation stack ih => exact ih (among.release activation.context)

namespace Session

variable {lent : List Value} {session : Session}

/-!
## Sessions and their hosts
-/

/-- What happens to a session as scripts run and a host does something between two statements.
The host holds the values in `lent`, it hands on no others, and afterwards it holds those in
`more`. -/
inductive Lends (lent : List Value) (session : Session) : List Value → Session → Prop where
  | advance : Lends lent session lent session.advance.2
  | run {after : Session} {script : Script} (parsed : script.Parsed)
      (started : session.run script = .ok after) : Lends lent session lent after
  /-- The host calls a function: the context that runs it is put above the others. -/
  | enter {bound : Session} {function : FunctionRef} {script : Script}
      {entry : Option StatementRef} {arguments : List Value} {receiver : Option Value}
      {context : Context} (settled : session.isSettled = true)
      (argumentsLent : ∀ argument ∈ arguments, argument ∈ lent)
      (receiverLent : ∀ value ∈ receiver, value ∈ lent)
      (body : (session.heap.function function).body = .script script entry)
      (called : session.callContext script entry (session.heap.function function).parameters
        (session.heap.function function).globals arguments receiver = (context, bound)) :
      Lends lent session lent (bound.push context)
  /-- What the host has called is over. -/
  | pop (settled : session.isSettled = true) : Lends lent session lent session.pop.2
  | clear : Lends lent session lent session.clear
  | breakOut (settled : session.isSettled = true) (count : Nat) :
      Lends lent session lent (session.modifyContext fun context => (context.breakOut count).2)
  | nextLoopPass (settled : session.isSettled = true) :
      Lends lent session lent (session.modifyContext fun context => context.nextLoopPass.2)
  | reset (settled : session.isSettled = true) :
      Lends lent session lent (session.modifyContext Context.reset)
  | install (name : String) (parameters : List String) (action : NativeAction) :
      Lends lent session lent (session.install name parameters action)
  /-- The host calls a native function and gets its answer. -/
  | native (action : NativeAction) {arguments : List Value} {receiver : Option Value}
      (argumentsLent : ∀ argument ∈ arguments, argument ∈ lent)
      (receiverLent : ∀ value ∈ receiver, value ∈ lent) :
      Lends lent session ((session.runNative action arguments receiver).1.toOption.toList ++ lent)
        (session.runNative action arguments receiver).2
  /-- The host takes a value that the session holds, such as the result of a call, an argument
  of a native function, a member or an item. A value that refers to nothing is also one. -/
  | take {value : Value} (held : ∀ records, session.Among records → value.Among records) :
      Lends lent session (value :: lent) session
  /-- The host binds a global name, or a member of a record. -/
  | bind (reference : RecordRef) (name : String) {value : Value} (held : value ∈ lent) :
      Lends lent session lent
        { session with heap := session.heap.setMember reference name value }
  /-- Whatever leaves contexts and objects alone: time passes, a script is suspended or goes
  on. -/
  | other {after : Session} (stack : after.stack = session.stack)
      (globals : after.globals = session.globals) (heap : after.heap = session.heap) :
      Lends lent session lent after

/-- What may have become of a session and of the values that the host holds. -/
inductive Later (lent : List Value) (session : Session) : List Value → Session → Prop where
  | now : Later lent session lent session
  | step {more most : List Value} {after last : Session} (later : Later lent session more after)
      (lends : Lends more after most last) : Later lent session most last

/-- The session comes about from a new one by running scripts, and the host holds the given
values. -/
def Lent (lent : List Value) (session : Session) : Prop :=
  ∃ timeLimit, Later [] (Session.new timeLimit) lent session

theorem Lends.staged {more : List Value} {after : Session} (lends : Lends lent session more after)
    (staged : session.Staged) : after.Staged := by
  cases lends with
  | advance => exact staged.advance
  | run parsed started => exact staged.run parsed started
  | enter settled _ _ body called => exact staged.enter settled body called
  | pop settled => exact staged.pop settled
  | clear => exact staged.clear
  | breakOut settled count => exact staged.breakOut settled count
  | nextLoopPass settled => exact staged.nextLoopPass settled
  | reset settled => exact staged.reset settled
  | install name parameters action => exact staged.install name parameters action
  | @native action arguments receiver _ _ =>
      have among := native_among staged.layout.among.heap action
        (fun argument (_ : argument ∈ arguments) => among_any argument)
        (fun value (_ : value ∈ receiver) => among_any value)
      exact staged.other (session.runNative_keeps action arguments receiver)
        (session.runNative_settings action arguments receiver).globals
        (Nat.le_of_eq (congrArg Array.size among.kept.symm))
  | take _ => exact staged
  | bind reference name _ =>
      exact staged.other ⟨rfl, rfl⟩ rfl (by simp [Heap.setMember, Heap.modifyRecord])
  | other stack globals heap => exact staged.other ⟨stack, by rw [heap]⟩ globals (by rw [heap])

theorem Later.staged {more : List Value} {after : Session} (later : Later lent session more after)
    (staged : session.Staged) : after.Staged := by
  induction later with
  | now => exact staged
  | step _ lends ih => exact lends.staged ih

/-- Such a session comes about by running scripts. -/
theorem Lent.staged (lending : Lent lent session) : session.Staged := by
  obtain ⟨timeLimit, later⟩ := lending
  exact later.staged (.new timeLimit)

/-!
## Steps and names
-/

/-- A context after a turn goes on in the scope of one before it, or was opened in this turn. -/
theorem Turned.origin {records : RecordRef → Prop} {stack after : List Activation}
    {heap grown : Heap} {progress : Progress}
    (turned : Turned records stack heap progress after grown) {activation : Activation}
    (member : activation ∈ after) :
    (∃ old ∈ stack, old.context.KeepsScope activation.context) ∨
      Opened heap grown activation.context := by
  cases turned with
  | rests => exact .inl ⟨activation, member, .refl _⟩
  | @goes popped below old _ _ _ _ scope =>
      rcases List.mem_cons.mp member with rfl | lower
      · exact .inl ⟨old, by simp, scope⟩
      · exact .inl ⟨activation, by simp [lower], .refl _⟩
  | @opens below old _ _ _ _ scope _ opened =>
      rcases List.mem_cons.mp member with rfl | member
      · exact .inr opened
      · rcases List.mem_cons.mp member with rfl | lower
        · exact .inl ⟨old, by simp, scope⟩
        · exact .inl ⟨activation, by simp [lower], .refl _⟩
  | @declares top caller below =>
      rcases List.mem_cons.mp member with rfl | lower
      · exact .inl ⟨caller, by simp, caller.context.keepsScope_proceed⟩
      · exact .inl ⟨activation, by simp [lower], .refl _⟩

/-- The contexts after a step go on in the scope of one before it, or have new names, or own
none. New functions look names up in the globals only. -/
structure Steps (session after : Session) : Prop where
  globals : after.globals = session.globals
  size : session.heap.records.size ≤ after.heap.records.size
  contexts : ∀ activation ∈ after.stack,
    (∃ old ∈ session.stack, old.context.KeepsScope activation.context) ∨
      Opened session.heap after.heap activation.context ∨ activation.context.ownsNames = false
  functions : ∀ function ∈ after.heap.functions, function ∈ session.heap.functions ∨
    function.globals = none ∨ function.globals = some session.globals

namespace Steps

/-- A step that leaves no more contexts and functions than there were. -/
theorem of_subset {after : Session} (globals : after.globals = session.globals)
    (size : session.heap.records.size ≤ after.heap.records.size)
    (stack : ∀ activation ∈ after.stack, activation ∈ session.stack)
    (functions : after.heap.functions = session.heap.functions) : session.Steps after where
  globals
  size
  contexts activation member := .inl ⟨activation, stack activation member, .refl _⟩
  functions _ member := .inl (functions ▸ member)

/-- The innermost context moves on in its scope. -/
theorem modifyContext {change : Context → Context}
    (scope : ∀ context : Context, context.KeepsScope (change context)) :
    session.Steps (session.modifyContext change) := by
  unfold Session.modifyContext
  split
  · exact .of_subset rfl (Nat.le_refl _) (fun _ => id) rfl
  · next top below stack =>
      refine ⟨rfl, Nat.le_refl _, fun activation member => .inl ?_, fun _ => .inl⟩
      rw [stack]
      rcases List.mem_cons.mp member with rfl | lower
      · exact ⟨top, List.mem_cons_self, scope top.context⟩
      · exact ⟨activation, List.mem_cons_of_mem top lower, .refl _⟩

variable {after : Session} (steps : session.Steps after)

include steps

/-- Names that are owned after a step were owned before, or are new. -/
theorem owned {reference : RecordRef} (owned : OwnedBy after.stack reference) :
    session.heap.records.size ≤ reference.address ∨ OwnedBy session.stack reference := by
  obtain ⟨activation, member, owns, rfl⟩ := owned
  rcases steps.contexts activation member with ⟨old, present, scope⟩ | opened | borrows
  · exact .inr ⟨old, present, scope.ownsNames ▸ owns, congrArg ScopeChain.names scope.chain⟩
  · exact .inl opened.fresh
  · exact absurd owns (by simp [borrows])

theorem captures (captures : session.heap.Captures session.globals) :
    after.heap.Captures after.globals := by
  intro function member
  rw [steps.globals]
  rcases steps.functions function member with old | new
  · exact captures function old
  · exact new

theorem base (base : ∀ activation ∈ session.stack, activation.context.kind = .base →
      activation.context.ownsNames = false) :
    ∀ activation ∈ after.stack, activation.context.kind = .base →
      activation.context.ownsNames = false := by
  intro activation member kind
  rcases steps.contexts activation member with ⟨old, present, scope⟩ | opened | borrows
  · exact scope.ownsNames.trans (base old present (scope.kind ▸ kind))
  · exact absurd kind opened.kind
  · exact borrows

end Steps

/-- The context of a call that a host makes is opened in the session. -/
theorem callContext_opened {bound : Session} {function : FunctionRef} {script : Script}
    {entry : Option StatementRef} {arguments : List Value} {receiver : Option Value}
    {context : Context} {records : RecordRef → Prop}
    (body : (session.heap.function function).body = .script script entry)
    (called : session.callContext script entry (session.heap.function function).parameters
      (session.heap.function function).globals arguments receiver = (context, bound))
    (heapAmong : session.heap.Among records)
    (argumentsAmong : ∀ argument ∈ arguments, argument.Among records)
    (receiverAmong : ∀ value ∈ receiver, value.Among records) :
    Opened session.heap bound.heap context ∧ context.Among records ∧ bound.heap.Among records ∧
      session.heap.Writes (fun _ => False) bound.heap := by
  have opened := callContext_among heapAmong (heapAmong.scripts function script entry body) entry
    (session.heap.function function).parameters (session.heap.function function).globals
    argumentsAmong receiverAmong
  rw [called] at opened
  exact opened

theorem Lends.steps {more : List Value} {after : Session} (lends : Lends lent session more after)
    (layout : session.Layout) : session.Steps after := by
  cases lends with
  | advance =>
      have turned := advance_turned layout.among
      refine ⟨session.advance_settings.globals, turned.size, fun activation member => ?_,
        fun function member => ?_⟩
      · exact (turned.origin member).imp_right .inl
      · exact (layout.advance_makes function member).imp_right .inr
  | @run _ script parsed started =>
      unfold Session.run at started
      split at started
      · cases started
      · cases started
        have scope :=
          (Context.base script session.globals).keepsScope_enter script.first none none none
        refine ⟨rfl, Nat.le_of_eq (size_releaseAll _ _).symm,
          List.forall_mem_singleton.mpr (.inr (.inr scope.ownsNames)), fun function member => ?_⟩
        exact .inl (functions_releaseAll session.stack session.heap ▸ member)
  | @enter bound function script entry arguments receiver context _ _ _ body called =>
      obtain ⟨fresh, _, _, writes⟩ := callContext_opened body called layout.among.heap
        (fun argument _ => among_any argument) fun value _ => among_any value
      obtain ⟨_, _, same, functions⟩ := session.callContext_keeps script entry
        (session.heap.function function).parameters (session.heap.function function).globals
        arguments receiver
      obtain ⟨rfl, rfl⟩ := Prod.mk.inj (called.symm.trans same)
      refine ⟨rfl, writes.size, List.forall_mem_cons.mpr ⟨.inr (.inl fresh), ?_⟩, ?_⟩
      · exact fun activation member => .inl ⟨activation, member, .refl _⟩
      · exact fun function member => .inl (functions ▸ member)
  | pop _ =>
      unfold Session.pop
      split
      · exact .of_subset rfl (Nat.le_refl _) (fun _ => id) rfl
      · next top below stack =>
          exact .of_subset rfl (Nat.le_of_eq (size_release _ _).symm)
            (fun activation member => stack ▸ List.mem_cons_of_mem top member)
            (top.context.functions_release _)
  | clear =>
      exact .of_subset rfl (Nat.le_of_eq (size_releaseAll _ _).symm)
        (fun _ member => nomatch member) (functions_releaseAll _ _)
  | breakOut _ count => exact .modifyContext fun context => context.keepsScope_breakOut count
  | nextLoopPass _ => exact .modifyContext fun context => context.keepsScope_nextLoopPass
  | reset _ => exact .modifyContext fun context => ⟨rfl, ⟨rfl, rfl⟩, rfl⟩
  | install name parameters action =>
      refine ⟨rfl, ?_, fun activation member => .inl ⟨activation, member, .refl _⟩, ?_⟩
      · simp [Session.install, Heap.installNative, Heap.newFunction, Heap.setMember,
          Heap.modifyRecord]
      · intro function member
        rcases Array.mem_push.mp member with old | rfl
        · exact .inl old
        · exact .inr (.inl rfl)
  | @native action arguments receiver _ _ =>
      have contexts := session.runNative_keeps action arguments receiver
      have among := native_among layout.among.heap action
        (fun argument (_ : argument ∈ arguments) => among_any argument)
        (fun value (_ : value ∈ receiver) => among_any value)
      exact .of_subset (session.runNative_settings action arguments receiver).globals
        (Nat.le_of_eq (congrArg Array.size among.kept.symm)) (fun _ => (contexts.stack ▸ ·))
        contexts.functions
  | take _ => exact .of_subset rfl (Nat.le_refl _) (fun _ => id) rfl
  | bind reference name _ =>
      exact .of_subset rfl (by simp [Heap.setMember, Heap.modifyRecord]) (fun _ => id) rfl
  | other stack globals heap =>
      exact .of_subset globals (by rw [heap]) (fun _ => (stack ▸ ·)) (by rw [heap])

/-!
## What nobody refers to
-/

/-- No value that the session or its host holds is the record. -/
structure Hides (lent : List Value) (session : Session) (reference : RecordRef) : Prop where
  among : session.Among (· ≠ reference)
  lent : ∀ value ∈ lent, value.Among (· ≠ reference)

/-- The names of a context are not those of another one below it. -/
theorem Stacked.names_ne {globals : RecordRef} {heap : Heap} {top lower : Activation}
    {below : List Activation} (stacked : Stacked globals heap (top :: below))
    (member : lower ∈ below) : top.context.names ≠ lower.context.names := by
  cases stacked.layers with
  | cons sees _ =>
      cases sees with
      | base _ _ bottom => exact absurd member (bottom ▸ List.not_mem_nil)
      | function _ _ own | block _ _ _ _ own =>
          intro same
          exact own.hidden lower member (same ▸ List.mem_cons_self)

/-- A turn keeps a record hidden that is owned afterwards or not there yet. Only the names of a
finished block become a value, and they belong to none of the contexts that are left. -/
theorem Turned.hides {globals reference : RecordRef} {stack after : List Activation}
    {heap grown : Heap} {progress : Progress}
    (turned : Turned (· ≠ reference) stack heap progress after grown)
    (stacked : Stacked globals heap stack)
    (apart : grown.records.size ≤ reference.address ∨ OwnedBy after reference)
    (heapAmong : heap.Among (· ≠ reference))
    (stackAmong : ∀ activation ∈ stack, activation.Among (· ≠ reference)) :
    grown.Among (· ≠ reference) ∧ ∀ activation ∈ after, activation.Among (· ≠ reference) := by
  have size := turned.size
  cases turned with
  | rests => exact ⟨heapAmong, stackAmong⟩
  | goes _ newAmong grownAmong =>
      exact ⟨grownAmong, List.forall_mem_cons.mpr ⟨newAmong, fun activation member =>
        stackAmong activation (by simp [member])⟩⟩
  | opens _ newAmong _ contextAmong grownAmong =>
      exact ⟨grownAmong, List.forall_mem_cons.mpr ⟨⟨contextAmong, trivial⟩,
        List.forall_mem_cons.mpr ⟨newAmong, fun activation member =>
          stackAmong activation (by simp [member])⟩⟩⟩
  | @declares top caller below _ _ _ rests ended owns waits =>
      have given : top.context.names ≠ reference := by
        rintro rfl
        rcases apart with absent | ⟨activation, member, _, same⟩
        · have present := stacked.visible top List.mem_cons_self _ List.mem_cons_self
          exact Nat.not_lt.mpr (Nat.le_trans size absent) present
        · rcases List.mem_cons.mp member with rfl | lower
          · have kept := congrArg ScopeChain.names caller.context.keepsScope_proceed.chain
            exact stacked.names_ne List.mem_cons_self (same.trans kept)
          · exact stacked.names_ne (List.mem_cons_of_mem caller lower) same
      refine Turned.among (.declares rests ended owns waits) heapAmong stackAmong ?_
      rintro _ ⟨⟩ _
      exact given

/-- A session hides a record that it hid before, if it does so after a turn. -/
theorem Lends.hides_of_turn {more : List Value} {after : Session} {reference : RecordRef}
    (lends : Lends lent session more after)
    (turn : after = session.advance.2 → after.Among (· ≠ reference))
    (before : session.Hides lent reference) : after.Hides more reference := by
  obtain ⟨⟨heapAmong, stackAmong⟩, lentAmong⟩ := before
  -- Contexts that move on in their scope take no value up.
  have moves {change : Context → Context} (changed : ∀ context : Context,
      context.Among (· ≠ reference) → (change context).Among (· ≠ reference)) :
      (session.modifyContext change).Hides lent reference := by
    unfold Session.modifyContext
    split
    · exact ⟨⟨heapAmong, stackAmong⟩, lentAmong⟩
    · next top below stack =>
        obtain ⟨topAmong, belowAmong⟩ := List.forall_mem_cons.mp (stack ▸ stackAmong)
        exact ⟨⟨heapAmong, List.forall_mem_cons.mpr
          ⟨⟨changed _ topAmong.context, topAmong.activity⟩, belowAmong⟩⟩, lentAmong⟩
  cases lends with
  | advance => exact ⟨turn rfl, lentAmong⟩
  | run parsed started =>
      unfold Session.run at started
      split at started
      · cases started
      · cases started
        exact ⟨⟨heapAmong.releaseAll session.stack, List.forall_mem_singleton.mpr
          ⟨(Context.Among.new parsed.plain).enter _ _ _ _, trivial⟩⟩, lentAmong⟩
  | @enter bound function script entry arguments receiver context _ given named body called =>
      obtain ⟨_, contextAmong, grown, _⟩ := callContext_opened body called heapAmong
        (fun argument member => lentAmong argument (given argument member))
        fun value member => lentAmong value (named value member)
      obtain ⟨_, _, same, _⟩ := session.callContext_keeps script entry
        (session.heap.function function).parameters (session.heap.function function).globals
        arguments receiver
      obtain ⟨rfl, rfl⟩ := Prod.mk.inj (called.symm.trans same)
      exact ⟨⟨grown, List.forall_mem_cons.mpr ⟨⟨contextAmong, trivial⟩, stackAmong⟩⟩, lentAmong⟩
  | pop _ =>
      unfold Session.pop
      split
      · exact ⟨⟨heapAmong, stackAmong⟩, lentAmong⟩
      · next top below stack =>
          obtain ⟨_, belowAmong⟩ := List.forall_mem_cons.mp (stack ▸ stackAmong)
          exact ⟨⟨heapAmong.release top.context, belowAmong⟩, lentAmong⟩
  | clear => exact ⟨⟨heapAmong.releaseAll session.stack, List.forall_mem_nil _⟩, lentAmong⟩
  | breakOut _ count => exact moves fun context among => among.breakOut count
  | nextLoopPass _ => exact moves fun context among => among.nextLoopPass
  | reset _ => exact moves fun context among => among.reset
  | install name parameters action =>
      refine ⟨⟨(heapAmong.newFunction ?_).setMember trivial, stackAmong⟩, lentAmong⟩
      rintro script entry ⟨⟩
  | @native action arguments receiver given named =>
      have contexts := session.runNative_keeps action arguments receiver
      have native := native_among heapAmong action
        (fun argument member => lentAmong argument (given argument member))
        (fun value (member : value ∈ receiver) => lentAmong value (named value member))
      refine ⟨⟨native.heap, contexts.stack ▸ stackAmong⟩, fun value member => ?_⟩
      rcases List.mem_append.mp member with answered | held
      · refine native.value value ?_
        generalize (session.runNative action arguments receiver).1 = answer at answered
        cases answer with
        | error cause => cases answered
        | ok result => rw [List.mem_singleton.mp answered]
      · exact lentAmong value held
  | take held =>
      exact ⟨⟨heapAmong, stackAmong⟩, List.forall_mem_cons.mpr
        ⟨held _ ⟨heapAmong, stackAmong⟩, lentAmong⟩⟩
  | bind target name held =>
      exact ⟨⟨heapAmong.setMember (lentAmong _ held), stackAmong⟩, lentAmong⟩
  | other stack globals heap =>
      exact ⟨⟨heap ▸ heapAmong, stack ▸ stackAmong⟩, lentAmong⟩

/-- A session hides a record that it hid before, if the record is owned afterwards or not there
yet. -/
theorem Lends.hides {more : List Value} {after : Session} {reference : RecordRef}
    (lends : Lends lent session more after) (layout : session.Layout)
    (apart : after.heap.records.size ≤ reference.address ∨ OwnedBy after.stack reference)
    (before : session.Hides lent reference) : after.Hides more reference := by
  refine lends.hides_of_turn ?_ before
  rintro rfl
  obtain ⟨grown, contexts⟩ := (advance_turned before.among).hides layout.stacked apart
    before.among.heap before.among.stack
  exact ⟨grown, contexts⟩

/-- Records that are not there yet, and those whose names a context owns, are hidden. Functions
look names up in the globals only, which no base context owns. -/
structure Secluded (lent : List Value) (session : Session) : Prop where
  hides : ∀ reference, session.heap.records.size ≤ reference.address ∨
    OwnedBy session.stack reference → session.Hides lent reference
  captures : session.heap.Captures session.globals
  base : ∀ activation ∈ session.stack, activation.context.kind = .base →
    activation.context.ownsNames = false

/-- Whatever a host does with the values that it holds, what is owned stays hidden. -/
theorem Lends.secluded {more : List Value} {after : Session} (lends : Lends lent session more after)
    (layout : session.Layout) (secluded : Secluded lent session) : Secluded more after where
  hides reference apart := by
    refine lends.hides layout apart (secluded.hides reference ?_)
    rcases apart with absent | owned
    · exact .inl (Nat.le_trans (lends.steps layout).size absent)
    · exact (lends.steps layout).owned owned
  captures := (lends.steps layout).captures secluded.captures
  base := (lends.steps layout).base secluded.base

theorem secluded_new (timeLimit : Option Nat) : Secluded [] (Session.new timeLimit) where
  hides reference apart := by
    have present : (⟨1⟩ : RecordRef) ≠ reference := by
      rintro rfl
      rcases apart with absent | ⟨_, member, _⟩
      · rw [(@heap_new_among (fun _ => True) trivial timeLimit).2] at absent
        exact absurd absent (by decide)
      · cases member
    exact ⟨⟨(@heap_new_among (· ≠ reference) present timeLimit).1, List.forall_mem_nil _⟩,
      List.forall_mem_nil _⟩
  captures := by
    have empty : (Heap.empty.newRecord .empty).2.Captures (Session.new timeLimit).globals := by
      intro function member
      simp [Heap.empty, Heap.newRecord] at member
    have library := empty.installAll (Heap.empty.newRecord .empty).1 libraryFunctions
    generalize made : Heap.installAll _ _ libraryFunctions = installed at library
    have opened : (installed.newRecord .empty).2.Captures (Session.new timeLimit).globals := library
    refine (opened.installAll (installed.newRecord .empty).1 libraryMethods).of_functions ?_
    rw [← made]
    rfl
  base := List.forall_mem_nil _

theorem Later.secluded {more : List Value} {after : Session} (later : Later lent session more after)
    (staged : session.Staged) (secluded : Secluded lent session) : Secluded more after := by
  induction later with
  | now => exact secluded
  | step later lends ih => exact lends.secluded (later.staged staged).layout ih

theorem Lent.secluded (lending : Lent lent session) : Secluded lent session := by
  obtain ⟨timeLimit, later⟩ := lending
  exact later.secluded (.new timeLimit) (secluded_new timeLimit)

/-!
## What is dropped
-/

/-- The globals are the record, a function looks names up in it, or a value that the session or
its host holds is the record. -/
def Refers (lent : List Value) (session : Session) (reference : RecordRef) : Prop :=
  reference = session.globals ∨
    (∃ function ∈ session.heap.functions, function.globals = some reference) ∨
    ¬session.Hides lent reference

/-- The record is there, and no context owns its names. -/
structure Unowned (session : Session) (reference : RecordRef) : Prop where
  present : reference.address < session.heap.records.size
  unowned : ¬OwnedBy session.stack reference

/-- Contexts that are dropped take no member off the record: those that a host drops, those
that an error takes down, and that of a call which is over. -/
structure OutlivesDrops (session : Session) (reference : RecordRef) : Prop where
  dropped : ∀ gone rest, session.stack = gone ++ rest →
    (releaseAll gone session.heap).record reference = session.heap.record reference
  failed : ∀ failure after, session.advance = (.failed failure, after) →
    after.heap.record reference = session.heap.record reference
  returned : ∀ top caller below continuation scope span,
    session.stack = top :: caller :: below → top.activity = .resting →
    top.context.current = none → caller.activity = .calling continuation scope span →
    session.advance.2.heap.record reference = session.heap.record reference

theorem writes_releaseAll (stack : List Activation) (heap : Heap) :
    heap.Writes (OwnedBy stack) (releaseAll stack heap) := by
  unfold releaseAll
  induction stack generalizing heap with
  | nil => exact .refl heap
  | cons activation stack ih =>
      have first : heap.Writes (OwnedBy (activation :: stack)) (activation.context.release heap) :=
        .release _ _ fun owns => ⟨activation, List.mem_cons_self, owns, rfl⟩
      refine first.trans ((ih _).mono fun reference owned => ?_)
      obtain ⟨later, member, owns, same⟩ := owned
      exact ⟨later, List.mem_cons_of_mem activation member, owns, same⟩

/-- A context that has moved on in its scope owns the same names. -/
theorem OwnedBy.of_scope {origin top : Activation} {below : List Activation}
    {reference : RecordRef} (scope : origin.context.KeepsScope top.context)
    (owned : OwnedBy (top :: below) reference) : OwnedBy (origin :: below) reference := by
  obtain ⟨activation, member, owns, same⟩ := owned
  rcases List.mem_cons.mp member with rfl | lower
  · exact ⟨origin, List.mem_cons_self, scope.ownsNames ▸ owns,
      same.trans (congrArg ScopeChain.names scope.chain)⟩
  · exact ⟨activation, List.mem_cons_of_mem origin lower, owns, same⟩

/-- A statement that fails changes no record itself. -/
theorem settleStatement_writes {session : Session} {origin : Activation} {heap : Heap}
    {outcome : StatementOutcome} {below : List Activation} {failure : RuntimeError}
    (goes : outcome.Goes (fun _ => True) heap origin.context)
    (failed : (session.settleStatement outcome below).1 = .failed failure) :
    heap.Writes (OwnedBy (origin :: below)) (session.settleStatement outcome below).2.heap := by
  cases outcome with
  | done | line | evaluate | declare => cases failed
  | failed cause context grown =>
      obtain ⟨scope, _, grownAmong, kept⟩ := goes
      have raised : grown.Writes (OwnedBy (origin :: below)) _ :=
        (@raise_writes _ { session with heap := grown } grownAmong cause ⟨context, .resting⟩
          below).mono fun _ => OwnedBy.of_scope scope
      exact (Heap.Writes.of_records kept).trans raised

/-- A context at rest that fails changes no record but those that the contexts own. -/
theorem beginNext_writes {session : Session} {globals : RecordRef} {top : Activation}
    {below : List Activation} {failure : RuntimeError} (among : session.heap.Among fun _ => True)
    (topAmong : top.context.Among fun _ => True)
    (stacked : Stacked globals session.heap (top :: below))
    (failed : (session.beginNext top below).1 = .failed failure) :
    session.heap.Writes (OwnedBy (top :: below)) (session.beginNext top below).2.heap := by
  unfold beginNext at failed ⊢
  cases current : top.context.current with
  | none =>
      rw [current] at failed
      cases below with
      | nil => cases failed
      | cons caller below => exact (stacked.complete_ne_failed session failure failed).elim
  | some this =>
      rw [current] at failed
      dsimp only at failed ⊢
      cases found : top.context.script.statement? this with
      | none =>
          rw [found] at failed
          cases failed
      | some statement =>
          rw [found] at failed
          exact settleStatement_writes
            (Context.goes_beginStatement topAmong among this statement) failed

/-- A turn that fails changes no record but those that the contexts own. -/
theorem Layout.writes_failed {session : Session} (layout : session.Layout)
    {failure : RuntimeError} (failed : session.advance.1 = .failed failure) :
    session.heap.Writes (OwnedBy session.stack) session.advance.2.heap := by
  obtain ⟨_, among, _, stacked⟩ := layout
  cases stack : session.stack with
  | nil =>
      have same : session.advance.2.heap = session.heap := by
        simp only [Session.advance, stack]
        split <;> rfl
      rw [same]
      exact .refl _
  | cons top below =>
      obtain ⟨topAmong, _⟩ := List.forall_mem_cons.mp (stack ▸ among.stack)
      rw [stack] at stacked
      simp only [Session.advance, stack] at failed ⊢
      cases active : top.activity with
      | calling | declaring =>
          rw [active] at failed
          cases failed
      | resting =>
          rw [active] at failed
          dsimp only at failed ⊢
          have heapAmong := among.heap
          generalize ticking :
            { session with stack := top :: below, now := session.now + 1 } = ticked at failed ⊢
          have heap : session.heap = ticked.heap := by rw [← ticking]
          rw [heap] at heapAmong stacked ⊢
          cases overdue : ticked.isOverdue with
          | some limit => exact raise_writes heapAmong _ top below
          | none =>
              rw [overdue] at failed
              exact beginNext_writes heapAmong topAmong.context stacked failed
      | evaluating continuation =>
          have continuationAmong : continuation.Among fun _ => True := by
            have activity := topAmong.activity
            rwa [active] at activity
          have evaluated := topAmong.context.evaluation.advance among.heap
          have kept := top.context.evaluation.advance_keeps session.heap
          rw [active] at failed
          dsimp only at failed ⊢
          generalize top.context.evaluation.advance session.heap = answer at evaluated kept failed
          obtain ⟨turn, evaluation, grown⟩ := answer
          obtain ⟨turnAmong, evaluationAmong, grownAmong⟩ := evaluated
          obtain ⟨place, objects⟩ := kept
          have scope : top.context.KeepsScope { top.context with evaluation } := ⟨rfl, place, rfl⟩
          have context : Context.Among (fun _ => True) { top.context with evaluation } :=
            ⟨evaluationAmong, topAmong.context.frames, topAmong.context.returned⟩
          have same : session.heap.Writes (OwnedBy (top :: below)) grown :=
            .of_records objects.records
          cases turn with
          | working | endless => cases failed
          | call request called =>
              exact same.trans ((@beginCall_writes _
                { session with stack := top :: below, heap := grown } grownAmong request
                turnAmong.1 called _ continuation below).mono fun _ => OwnedBy.of_scope scope)
          | finished value =>
              have goes := Context.goes_deliver context grownAmong continuationAmong turnAmong
              exact settleStatement_writes (goes.behind scope objects.records) failed
          | failed cause =>
              exact same.trans ((@raise_writes _
                { session with stack := top :: below, heap := grown } grownAmong cause
                ⟨{ top.context with evaluation }, .evaluating continuation⟩ below).mono fun _ =>
                  OwnedBy.of_scope scope)

/-- The innermost context has nothing left to run, and there is another one below. -/
structure Ends (session : Session) (top caller : Activation) (below : List Activation) : Prop where
  stack : session.stack = top :: caller :: below
  rests : top.activity = .resting
  ended : top.context.current = none

theorem Ends.advance {top caller : Activation} {below : List Activation}
    (ends : session.Ends top caller below) :
    session.advance =
      match { session with now := session.now + 1 }.isOverdue with
      | some limit =>
          { session with now := session.now + 1 }.raise (.unplaced (.timeLimit limit)) top
            (caller :: below)
      | none => { session with now := session.now + 1 }.complete top.context caller below := by
  obtain ⟨state, stack, heap, globals, output, timeLimit, now, startedAt, suspendedAt⟩ := session
  obtain ⟨rfl, rests, ended⟩ := ends
  unfold Session.advance
  dsimp only
  rw [rests]
  dsimp only
  generalize Session.isOverdue _ = overdue
  cases overdue with
  | some limit => rfl
  | none =>
      unfold beginNext
      rw [ended]

namespace Unowned

variable {reference : RecordRef} (unowned : session.Unowned reference)

include unowned

theorem steps {after : Session} (steps : session.Steps after) : after.Unowned reference where
  present := Nat.lt_of_lt_of_le unowned.present steps.size
  unowned owned := by
    rcases steps.owned owned with absent | owns
    · exact Nat.not_lt.mpr absent unowned.present
    · exact unowned.unowned owns

theorem later {more : List Value} {after : Session} (staged : session.Staged)
    (later : Later lent session more after) : after.Unowned reference := by
  induction later with
  | now => exact unowned
  | step later lends ih => exact ih.steps (lends.steps (later.staged staged).layout)

/-- Only the records that they own lose members when contexts are dropped. -/
theorem outlivesDrops (layout : session.Layout) : session.OutlivesDrops reference where
  dropped gone rest stack := by
    refine (writes_releaseAll gone session.heap).kept reference unowned.present ?_
    intro owned
    obtain ⟨activation, member, own⟩ := owned
    exact unowned.unowned ⟨activation, stack ▸ List.mem_append_left rest member, own⟩
  failed failure after failing := by
    have writes := layout.writes_failed (congrArg Prod.fst failing)
    rw [failing] at writes
    exact writes.kept reference unowned.present unowned.unowned
  returned top caller below continuation scope span stack rests ended waits := by
    have ends : session.Ends top caller below := ⟨stack, rests, ended⟩
    have writes : session.heap.Writes (OwnedBy (top :: caller :: below))
        session.advance.2.heap := by
      rw [ends.advance]
      split
      · exact raise_writes layout.among.heap _ top (caller :: below)
      · simp only [complete, waits]
        exact .release _ _ fun owns => ⟨top, List.mem_cons_self, owns, rfl⟩
    exact writes.kept reference unowned.present (stack ▸ unowned.unowned)

end Unowned

/-- What somebody refers to is there, and no context owns it. -/
theorem Secluded.unowned {reference : RecordRef} (secluded : Secluded lent session)
    (layout : session.Layout) (refers : session.Refers lent reference) :
    session.Unowned reference := by
  have globals : session.Unowned session.globals := by
    refine ⟨layout.present, ?_⟩
    rintro ⟨activation, member, owns, same⟩
    obtain ⟨upper, below, stack⟩ := List.append_of_mem member
    have layers := layout.stacked.layers
    rw [stack] at layers
    cases layers.suffix with
    | cons sees _ =>
        cases sees with
        | base kind _ _ => exact absurd owns (by simp [secluded.base activation member kind])
        | function _ _ own | block _ _ _ _ own => exact own.ne_globals same.symm
  rcases refers with rfl | ⟨function, member, captured⟩ | held
  · exact globals
  · rcases secluded.captures function member with none | same
    · exact nomatch captured.symm.trans none
    · obtain rfl := Option.some.inj (captured.symm.trans same)
      exact globals
  · have apart : ¬(session.heap.records.size ≤ reference.address ∨
        OwnedBy session.stack reference) := fun apart => held (secluded.hides reference apart)
    exact ⟨Nat.not_le.mp fun absent => apart (.inl absent), fun owned => apart (.inr owned)⟩

/-- A finished block gives its names away with all members. From then on no context owns them. -/
theorem Ends.declares {top caller : Activation} {below : List Activation} {name : String}
    {span : Span} {after : Session} (ends : session.Ends top caller below)
    (layout : session.Layout) (waits : caller.activity = .declaring name span)
    (completed : session.advance = (.working, after)) :
    after.heap.record top.context.names = session.heap.record top.context.names ∧
      (after.heap.record caller.context.names).get? name = some (.record top.context.names) ∧
      after.Unowned top.context.names := by
  obtain ⟨_, _, _, stacked⟩ := layout
  rw [ends.stack] at stacked
  have present (activation : Activation) (member : activation ∈ top :: caller :: below) :
      activation.context.names.address < session.heap.records.size :=
    stacked.visible activation member _ List.mem_cons_self
  have callerPresent := present caller (List.mem_cons_of_mem top List.mem_cons_self)
  rw [ends.advance] at completed
  split at completed
  · cases completed
  · simp only [complete, waits] at completed
    split at completed
    · next members left taken =>
        obtain rfl : top.context.names = members := by
          unfold Context.takeNames at taken
          split at taken <;> cases taken
          rfl
        cases completed
        simp only [Context.bind]
        refine ⟨?_, ?_, ?_, ?_⟩
        · rw [Heap.setMember, Heap.record_modifyRecord _ _ _ _ callerPresent,
            if_neg (stacked.names_ne List.mem_cons_self)]
        · rw [Heap.get?_record_setMember _ _ _ _ _ _ callerPresent, if_pos ⟨rfl, rfl⟩]
        · simpa [Heap.setMember, Heap.modifyRecord] using present top List.mem_cons_self
        · rintro ⟨activation, member, _, same⟩
          rcases List.mem_cons.mp member with rfl | lower
          · exact stacked.names_ne List.mem_cons_self
              (same.trans (congrArg ScopeChain.names caller.context.keepsScope_proceed.chain))
          · exact stacked.names_ne (List.mem_cons_of_mem caller lower) same
    · cases completed

/-- While a context owns its names, the record of these names is not the globals, no function
looks names up in it, and no value in the heap, in the contexts or in the hands of the host is
this record. So nothing that anybody refers to loses members when contexts are dropped. What a
finished block hands out keeps its members then and whenever contexts are dropped later. -/
theorem owned_names_are_out_of_reach (lending : Lent lent session) :
    (∀ activation ∈ session.stack, activation.context.ownsNames = true →
      session.Hides lent activation.context.names ∧
        activation.context.names ≠ session.globals ∧
        ∀ function ∈ session.heap.functions,
          function.globals ≠ some activation.context.names) ∧
    (∀ reference, session.Refers lent reference → session.OutlivesDrops reference) ∧
    ∀ top caller below name span after, session.Ends top caller below →
      caller.activity = .declaring name span → session.advance = (.working, after) →
        after.heap.record top.context.names = session.heap.record top.context.names ∧
          (after.heap.record caller.context.names).get? name =
            some (.record top.context.names) ∧
          ∀ more last, Later lent after more last → last.OutlivesDrops top.context.names := by
  have layout := lending.staged.layout
  have secluded := lending.secluded
  have clear (reference : RecordRef) (refers : session.Refers lent reference) :
      session.Unowned reference := secluded.unowned layout refers
  refine ⟨fun activation member owns => ?_, fun reference refers => ?_, ?_⟩
  · have owned : OwnedBy session.stack activation.context.names :=
      ⟨activation, member, owns, rfl⟩
    refine ⟨secluded.hides _ (.inr owned), ?_, ?_⟩
    · intro globals
      exact (clear _ (.inl globals)).unowned owned
    · intro function member captured
      exact (clear _ (.inr (.inl ⟨function, member, captured⟩))).unowned owned
  · exact (clear reference refers).outlivesDrops layout
  · intro top caller below name span after ends waits completed
    obtain ⟨same, bound, unowned⟩ := ends.declares layout waits completed
    have staged : after.Staged := by
      have turn := lending.staged.advance
      rwa [completed] at turn
    refine ⟨same, bound, fun more last later => ?_⟩
    exact (unowned.later staged later).outlivesDrops (later.staged staged).layout

/-- The block of a record has nothing left to run, and the next turn binds the record. -/
def completesBlock (session : Session) : Bool :=
  match session.stack with
  | ⟨top, .resting⟩ :: ⟨_, .declaring _ _⟩ :: _ =>
      top.current.isNone && top.ownsNames && (session.advance.1 matches .working)
  | _ => false

theorem eq_of_completesBlock (passed : session.completesBlock = true) :
    ∃ top caller below name span after, session.Ends top caller below ∧
      caller.activity = .declaring name span ∧ session.advance = (.working, after) ∧
      top.context.ownsNames = true := by
  unfold completesBlock at passed
  split at passed
  · next top caller name span below stack =>
      simp only [Bool.and_eq_true, Option.isNone_iff_eq_none] at passed
      obtain ⟨⟨ended, owns⟩, works⟩ := passed
      generalize turn : session.advance = answer at works
      obtain ⟨progress, after⟩ := answer
      cases progress with
      | idle | failed | endless => cases works
      | working => exact ⟨_, _, below, name, span, after, ⟨stack, rfl, ended⟩, rfl, rfl, owns⟩
  · cases passed

/-- The names of the block of `r` are hidden up to its end. Then they are the record `r`. -/
theorem owned_names_are_out_of_reach_in_a_record :
    ∃ (session after : Session) (top caller : Activation) (below : List Activation),
      Lent [] session ∧ session.Ends top caller below ∧ top.context.ownsNames = true ∧
        session.Hides [] top.context.names ∧ session.advance = (.working, after) ∧
        ((after.heap.record top.context.names).get? "x").any (·.isText "a") = true ∧
        after.OutlivesDrops top.context.names := by
  have passed : ((Script.ofSource "record r\nx = \"a\"\nend\n").toOption.any fun script =>
      ((Session.new none).run script).toOption.any fun started =>
        let session := (fun session => session.advance.2)^[4] started
        session.completesBlock && session.stack.head?.any fun top =>
          ((session.heap.record top.context.names).get? "x").any (·.isText "a")) = true := by
    decide +kernel
  obtain ⟨script, started, accepted, begun, passed⟩ := eq_of_runs passed
  obtain ⟨completes, named⟩ := Bool.and_eq_true_iff.mp passed
  obtain ⟨top, caller, below, name, span, after, ends, waits, turn, owns⟩ :=
    eq_of_completesBlock completes
  have parsed := Script.parsed_ofSource accepted
  have lending : Lent [] ((fun session => session.advance.2)^[4] started) :=
    ⟨none, .step (.step (.step (.step (.step .now (.run parsed begun)) .advance) .advance)
      .advance) .advance⟩
  obtain ⟨hidden, _, completed⟩ := owned_names_are_out_of_reach lending
  obtain ⟨kept, _, outlives⟩ := completed top caller below name span after ends waits turn
  have present : top ∈ ((fun session => session.advance.2)^[4] started).stack :=
    ends.stack ▸ List.mem_cons_self
  refine ⟨_, after, top, caller, below, lending, ends, owns, (hidden top present owns).1, turn,
    ?_, outlives [] after .now⟩
  rw [kept]
  rw [ends.stack] at named
  exact named

end Session

end ScriptEngine
