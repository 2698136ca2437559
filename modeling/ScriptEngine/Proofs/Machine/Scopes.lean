import ScriptEngine.Proofs.Machine.Executing
import ScriptEngine.Proofs.Machine.Opened

/-!
# What contexts and native functions see

A base context sees the globals, a function its own locals and the globals, and a block
its own names and all that the statement which opened it sees. So every chain ends with
the globals, and every function of a script that is made in such a context looks names up
in them. Below the innermost context there are first those that wait for it, one for
another, and then those that rest until a host comes back to them.
-/

set_option autoImplicit false

namespace ScriptEngine

/-!
## What the contexts of a stack see
-/

/-- The context owns its names, which are neither the globals nor visible further below. -/
structure Context.HasOwnNames (globals : RecordRef) (below : List Activation)
    (context : Context) : Prop where
  owns : context.ownsNames = true
  ne_globals : context.names ≠ globals
  hidden : ∀ lower ∈ below, context.names ∉ lower.context.visible

/-- What a context sees, above the given ones. -/
inductive Context.Sees (globals : RecordRef) (below : List Activation) (context : Context) :
    Prop where
  | base (kind : context.kind = .base) (chain : context.chain = ⟨globals, []⟩)
      (bottom : below = [])
  | function (kind : context.kind = .function) (parents : context.chain.parents = [globals])
      (own : context.HasOwnNames globals below)
  | block {caller : Activation} {rest : List Activation} {name : String} {span : Span}
      (kind : context.kind = .block) (stack : below = caller :: rest)
      (waits : caller.activity = .declaring name span)
      (parents : context.chain.parents = caller.context.visible)
      (own : context.HasOwnNames globals below)

/-- Every context of the stack sees what it should, above those below it. -/
inductive Layered (globals : RecordRef) : List Activation → Prop where
  | nil : Layered globals []
  | cons {top : Activation} {below : List Activation} (sees : top.context.Sees globals below)
      (rest : Layered globals below) : Layered globals (top :: below)

/-- The statement of `caller` has opened the context of `callee`, and waits for it. -/
def Activation.Opens (caller callee : Activation) : Prop :=
  match caller.activity with
  | .calling .. => callee.context.kind = .function
  | .declaring .. => callee.context.kind = .block
  | _ => False

theorem Activation.Opens.rests_eq_false {caller callee : Activation} (opens : caller.Opens callee) :
    caller.rests = false := by
  obtain ⟨context, activity⟩ := caller
  cases activity with
  | resting | evaluating => exact opens.elim
  | calling | declaring => rfl

/-- The contexts below a context: those that wait, one for another, and those that rest. -/
inductive Waits : Activation → List Activation → Prop where
  | rests {top : Activation} {below : List Activation}
      (resting : ∀ lower ∈ below, lower.activity = .resting) : Waits top below
  | opened {top caller : Activation} {below : List Activation} (opens : caller.Opens top)
      (waits : Waits caller below) : Waits top (caller :: below)

/-- All contexts below the innermost one wait or rest. -/
def Waiting (stack : List Activation) : Prop :=
  ∀ top below, stack = top :: below → Waits top below

section

variable {globals : RecordRef} {below rest popped : List Activation} {old new callee : Activation}

theorem Context.Sees.keeps {context after : Context} (sees : context.Sees globals below)
    (kept : context.KeepsScope after) : after.Sees globals below := by
  have names : after.names = context.names := congrArg ScopeChain.names kept.chain
  have own (owns : context.HasOwnNames globals below) : after.HasOwnNames globals below :=
    ⟨kept.ownsNames.trans owns.owns, names ▸ owns.ne_globals, names ▸ owns.hidden⟩
  cases sees with
  | base kind chain bottom => exact .base (kept.kind.trans kind) (kept.chain.trans chain) bottom
  | function kind parents owns =>
      exact .function (kept.kind.trans kind)
        ((congrArg ScopeChain.parents kept.chain).trans parents) (own owns)
  | block kind stack waits parents owns =>
      exact .block (kept.kind.trans kind) stack waits
        ((congrArg ScopeChain.parents kept.chain).trans parents) (own owns)

theorem Layered.suffix (layers : Layered globals (popped ++ rest)) : Layered globals rest := by
  induction popped with
  | nil => exact layers
  | cons first popped ih =>
      cases layers with
      | cons _ behind => exact ih behind

/-- A context goes on in its scope, and those above it are gone. -/
theorem Layered.goes (layers : Layered globals (popped ++ old :: below))
    (scope : old.context.KeepsScope new.context) : Layered globals (new :: below) := by
  cases layers.suffix with
  | cons sees behind => exact .cons (sees.keeps scope) behind

/-- The chain of every context ends with the globals. -/
theorem Layered.outermost {stack : List Activation} (layers : Layered globals stack) :
    ∀ activation ∈ stack, activation.context.visible.getLast? = some globals := by
  induction layers with
  | nil => exact List.forall_mem_nil _
  | @cons top below sees _ ih =>
      refine List.forall_mem_cons.mpr ⟨?_, ih⟩
      have visible : top.context.visible = top.context.names :: top.context.chain.parents := rfl
      rw [visible]
      cases sees with
      | base kind chain _ =>
          have names : top.context.names = globals := congrArg ScopeChain.names chain
          rw [names, chain]
          rfl
      | function kind parents _ =>
          rw [parents]
          rfl
      | @block caller rest _ _ _ stack _ parents _ =>
          rw [parents]
          have last := ih caller (stack ▸ List.mem_cons_self)
          have more : caller.context.visible = caller.context.names :: caller.context.chain.parents :=
            rfl
          rw [more] at last ⊢
          rw [List.getLast?_cons_cons]
          exact last

theorem Waits.suffix (waits : Waits new (popped ++ old :: below)) : Waits old below := by
  generalize whole : popped ++ old :: below = stack at waits
  induction waits generalizing popped with
  | rests resting =>
      subst whole
      exact .rests fun lower member => resting lower (by simp [member])
  | @opened top caller rest opens waits ih =>
      cases popped with
      | nil =>
          obtain ⟨rfl, rfl⟩ := List.cons.inj whole
          exact waits
      | cons first popped =>
          obtain ⟨rfl, rfl⟩ := List.cons.inj whole
          exact ih rfl

theorem Waits.keeps (waits : Waits old below) (kind : new.context.kind = old.context.kind) :
    Waits new below := by
  cases waits with
  | rests resting => exact .rests resting
  | @opened _ caller _ opens waits =>
      refine .opened ?_ waits
      unfold Activation.Opens at opens ⊢
      rw [kind]
      exact opens

/-- A context goes on in its scope, and those above it are gone. -/
theorem Waiting.goes (waiting : Waiting (popped ++ old :: below))
    (scope : old.context.KeepsScope new.context) : Waiting (new :: below) := by
  rintro _ _ ⟨⟩
  cases popped with
  | nil => exact (waiting old below rfl).keeps scope.kind
  | cons first popped => exact (waiting first _ rfl).suffix.keeps scope.kind

/-- The contexts below the innermost one, in two parts. -/
theorem Waits.split {top : Activation} (waits : Waits top below) :
    ∃ waiting resting, below = waiting ++ resting ∧
      (top :: waiting).IsChain (fun callee caller => caller.Opens callee) ∧
      ∀ lower ∈ resting, lower.activity = .resting := by
  induction waits with
  | rests resting => exact ⟨[], _, rfl, .singleton _, resting⟩
  | @opened top caller below opens _ ih =>
      obtain ⟨waiting, resting, rfl, chain, rests⟩ := ih
      exact ⟨caller :: waiting, resting, rfl, .cons_cons opens chain, rests⟩

end

namespace Session

/-- The contexts of a stack see what they should, in records that are there, and wait or
rest below the innermost one. -/
structure Stacked (globals : RecordRef) (heap : Heap) (stack : List Activation) : Prop where
  layers : Layered globals stack
  waiting : Waiting stack
  visible : ∀ activation ∈ stack, ∀ reference ∈ activation.context.visible,
    reference.address < heap.records.size

theorem Turned.size {records : RecordRef → Prop} {stack after : List Activation}
    {heap grown : Heap} {progress : Progress}
    (turned : Turned records stack heap progress after grown) :
    heap.records.size ≤ grown.records.size := by
  cases turned with
  | rests => exact Nat.le_refl _
  | goes _ _ _ writes => exact writes.size
  | opens _ _ _ _ _ writes => exact writes.size
  | declares => simp [Context.bind, Heap.setMember, Heap.modifyRecord]

namespace Stacked

variable {globals : RecordRef} {heap grown : Heap}

theorem grow {stack : List Activation} (stacked : Stacked globals heap stack)
    (size : heap.records.size ≤ grown.records.size) : Stacked globals grown stack where
  layers := stacked.layers
  waiting := stacked.waiting
  visible activation member reference sees :=
    Nat.lt_of_lt_of_le (stacked.visible activation member reference sees) size

theorem goes {popped below : List Activation} {old new : Activation}
    (stacked : Stacked globals heap (popped ++ old :: below))
    (scope : old.context.KeepsScope new.context) : Stacked globals heap (new :: below) where
  layers := stacked.layers.goes scope
  waiting := stacked.waiting.goes scope
  visible := by
    have visible : new.context.visible = old.context.visible :=
      congrArg ScopeChain.toList scope.chain
    refine List.forall_mem_cons.mpr ⟨?_, fun activation member => ?_⟩
    · rw [visible]
      exact stacked.visible old (by simp)
    · exact stacked.visible activation (by simp [member])

/-- A base context stands alone. -/
theorem base {context : Context} (present : globals.address < heap.records.size)
    (kind : context.kind = .base) (chain : context.chain = ⟨globals, []⟩) :
    Stacked globals heap [⟨context, .resting⟩] where
  layers := .cons (.base kind chain rfl) .nil
  waiting := by
    rintro _ _ ⟨⟩
    exact .rests (List.forall_mem_nil _)
  visible := by
    have visible : context.visible = [globals] := congrArg ScopeChain.toList chain
    refine List.forall_mem_singleton.mpr ?_
    rw [visible]
    exact List.forall_mem_singleton.mpr present

/-- A context with a new record of names is put above the others. -/
theorem push {below : List Activation} {callee : Activation} (stacked : Stacked globals heap below)
    (present : globals.address < heap.records.size) (fresh : Opened heap grown callee.context)
    (size : heap.records.size ≤ grown.records.size)
    (parents : ∀ reference ∈ callee.context.chain.parents,
      reference.address < heap.records.size)
    (sees : callee.context.HasOwnNames globals below → callee.context.Sees globals below)
    (waits : Waits callee below) : Stacked globals grown (callee :: below) := by
  have own : callee.context.HasOwnNames globals below := by
    refine ⟨fresh.ownsNames, ?_, ?_⟩
    · intro same
      have fresh := fresh.fresh
      rw [same] at fresh
      exact Nat.not_lt.mpr fresh present
    · intro lower member sees
      exact Nat.not_lt.mpr fresh.fresh (stacked.visible lower member _ sees)
  have names : callee.context.visible =
      callee.context.names :: callee.context.chain.parents := rfl
  refine ⟨.cons (sees own) stacked.layers, ?_, ?_⟩
  · rintro _ _ ⟨⟩
    exact waits
  · refine List.forall_mem_cons.mpr ⟨?_, (stacked.grow size).visible⟩
    rw [names]
    exact List.forall_mem_cons.mpr ⟨fresh.present, fun reference member =>
      Nat.lt_of_lt_of_le (parents reference member) size⟩

/-- A context opens another one above it, and waits for it. -/
theorem opens {below : List Activation} {old waiting callee : Activation}
    (stacked : Stacked globals heap (old :: below)) (present : globals.address < heap.records.size)
    (scope : old.context.KeepsScope waiting.context) (fresh : Opened heap grown callee.context)
    (size : heap.records.size ≤ grown.records.size)
    (opened : OpenedBy globals waiting callee.context) :
    Stacked globals grown (callee :: waiting :: below) := by
  have went : Stacked globals heap (waiting :: below) := @goes _ _ [] _ _ _ stacked scope
  have behind : Waits waiting below := went.waiting waiting below rfl
  cases opened with
  | called waits kind parents =>
      refine went.push present fresh size ?_ (.function kind parents) (.opened ?_ behind)
      · rw [parents]
        exact List.forall_mem_singleton.mpr present
      · unfold Activation.Opens
        rw [waits]
        exact kind
  | declared waits kind parents =>
      refine went.push present fresh size ?_ (.block kind rfl waits parents) (.opened ?_ behind)
      · rw [parents]
        exact went.visible waiting List.mem_cons_self
      · unfold Activation.Opens
        rw [waits]
        exact kind

end Stacked

/-- What a turn does to the contexts, if it is known what a context that it opens sees. -/
theorem Turned.stacked {globals : RecordRef} {records : RecordRef → Prop}
    {stack after : List Activation} {heap grown : Heap} {progress : Progress}
    (turned : Turned records stack heap progress after grown)
    (present : globals.address < heap.records.size) (stacked : Stacked globals heap stack)
    (opened : ∀ old callee waiting below, stack = old :: below →
      after = callee :: waiting :: below → OpenedBy globals waiting callee.context) :
    Stacked globals grown after := by
  have size := turned.size
  cases turned with
  | rests => exact stacked
  | goes scope => exact (stacked.goes scope).grow size
  | @opens below old new context _ _ scope _ fresh =>
      exact stacked.opens present scope fresh size (opened old _ new below rfl rfl)
  | @declares top caller below =>
      exact (@Stacked.goes _ _ [top] _ caller ⟨caller.context.proceed, .resting⟩ stacked
        caller.context.keepsScope_proceed).grow size

/-!
## The sessions of running scripts
-/

/-- The session comes about from a new one by running scripts: by their turns, and by what
a host does between two statements. -/
inductive Staged : Session → Prop where
  | new (timeLimit : Option Nat) : Staged (Session.new timeLimit)
  | advance {session : Session} (staged : session.Staged) : session.advance.2.Staged
  | run {session after : Session} {script : Script} (staged : session.Staged)
      (parsed : script.Parsed) (started : session.run script = .ok after) : after.Staged
  /-- A host calls a function: the context that runs it is put above the others. -/
  | enter {session bound : Session} {function : FunctionRef} {script : Script}
      {entry : Option StatementRef} {arguments : List Value} {receiver : Option Value}
      {context : Context} (staged : session.Staged) (settled : session.isSettled = true)
      (body : (session.heap.function function).body = .script script entry)
      (called : session.callContext script entry (session.heap.function function).parameters
        (session.heap.function function).globals arguments receiver = (context, bound)) :
      (bound.push context).Staged
  /-- What a host has called is over. -/
  | pop {session : Session} (staged : session.Staged) (settled : session.isSettled = true) :
      session.pop.2.Staged
  | clear {session : Session} (staged : session.Staged) : session.clear.Staged
  | breakOut {session : Session} (staged : session.Staged) (settled : session.isSettled = true)
      (count : Nat) : (session.modifyContext fun context => (context.breakOut count).2).Staged
  | nextLoopPass {session : Session} (staged : session.Staged)
      (settled : session.isSettled = true) :
      (session.modifyContext fun context => context.nextLoopPass.2).Staged
  | reset {session : Session} (staged : session.Staged) (settled : session.isSettled = true) :
      (session.modifyContext Context.reset).Staged
  | install {session : Session} (staged : session.Staged) (name : String)
      (parameters : List String) (action : NativeAction) :
      (session.install name parameters action).Staged
  /-- Whatever leaves contexts and functions alone: time passes, a script is suspended or
  goes on, members and items are changed. -/
  | other {session after : Session} (staged : session.Staged) (kept : session.KeepsContexts after)
      (globals : after.globals = session.globals)
      (size : session.heap.records.size ≤ after.heap.records.size) : after.Staged

/-- What happens to a session as scripts run can happen to it anyway. -/
theorem Staged.reached {session : Session} (staged : session.Staged) : session.Reached := by
  induction staged with
  | new timeLimit => exact .new timeLimit
  | advance _ ih => exact ih.operation (.advance _)
  | run _ parsed started ih => exact ih.operation (.run parsed started)
  | enter _ _ body called ih => exact ih.operation (.call body called)
  | pop _ _ ih => exact ih.operation (.pop _)
  | clear _ ih => exact ih.operation (.clear _)
  | breakOut _ settled count ih => exact ih.operation (.breakOut _ settled count)
  | nextLoopPass _ settled ih => exact ih.operation (.nextLoopPass _ settled)
  | reset _ settled ih => exact ih.operation (.reset _ settled)
  | install _ name parameters action ih => exact ih.operation (.install _ name parameters action)
  | other _ kept _ _ ih => exact ih.kept kept

namespace Staged

variable {session : Session} (staged : session.Staged)

include staged

theorem turns (count : Nat) : ((fun session => session.advance.2)^[count] session).Staged := by
  induction count generalizing session with
  | zero => exact staged
  | succ count ih => exact ih staged.advance

theorem execute (turns : Nat) : (Session.execute turns session).2.Staged := by
  induction turns generalizing session with
  | zero => exact staged
  | succ turns ih =>
      have turn := staged.advance
      unfold Session.execute
      split
      · exact staged
      · generalize session.advance = answer at turn
        obtain ⟨progress, after⟩ := answer
        cases progress with
        | working => exact ih turn
        | idle | failed failure => exact turn.other ⟨rfl, rfl⟩ rfl (Nat.le_refl _)
        | endless => exact turn

end Staged

/-- All scripts are plain, all functions know the globals, and all contexts see what they
should. -/
structure Layout (session : Session) : Prop where
  present : session.globals.address < session.heap.records.size
  among : session.Among fun _ => True
  global : session.heap.Global session.globals
  stacked : Stacked session.globals session.heap session.stack

theorem among_any (value : Value) : value.Among fun _ => True := by
  cases value <;> trivial

private theorem among_of_functions {before after : Heap} (among : before.Among fun _ => True)
    (same : after.functions = before.functions) : after.Among fun _ => True where
  items _ value _ := among_any value
  members _ _ value _ := among_any value
  scripts reference script entry body := by
    unfold Heap.function at body
    rw [same] at body
    exact among.scripts reference script entry body

theorem size_release (context : Context) (heap : Heap) :
    (context.release heap).records.size = heap.records.size := by
  unfold Context.release
  split
  · exact Array.size_modify
  · rfl

theorem size_releaseAll (stack : List Activation) (heap : Heap) :
    (releaseAll stack heap).records.size = heap.records.size := by
  unfold releaseAll
  induction stack generalizing heap with
  | nil => rfl
  | cons activation stack ih => rw [List.foldl_cons, ih, size_release]

namespace Layout

variable {session : Session} (layout : session.Layout)

include layout

/-- The innermost context moves on in its scope. -/
theorem modifyContext {change : Context → Context}
    (changed : ∀ context : Context, context.Among (fun _ => True) →
      context.KeepsScope (change context) ∧ (change context).Among fun _ => True) :
    (session.modifyContext change).Layout := by
  obtain ⟨present, among, global, stacked⟩ := layout
  unfold Session.modifyContext
  split
  · exact ⟨present, among, global, stacked⟩
  · next top below stack =>
      rw [stack] at stacked
      have topAmong := among.stack top (stack ▸ List.mem_cons_self)
      obtain ⟨scope, changedAmong⟩ := changed top.context topAmong.context
      refine ⟨present, ⟨among.heap, List.forall_mem_cons.mpr ⟨⟨changedAmong, topAmong.activity⟩,
        fun activation member => among.stack activation (stack ▸ List.mem_cons_of_mem top member)⟩⟩,
        global, ?_⟩
      exact @Stacked.goes _ _ [] below top _ stacked scope

/-- The functions that a turn makes look names up in the globals. -/
theorem advance_makes : ∀ function ∈ session.advance.2.heap.functions,
    function ∈ session.heap.functions ∨ function.globals = some session.globals := by
  intro function member
  cases contexts : session.stack with
  | nil =>
      have same : session.advance.2.heap = session.heap := by
        simp only [Session.advance, contexts]
        split <;> rfl
      exact .inl (same ▸ member)
  | cons top below =>
      refine (advance_defines contexts function member).imp_right fun made => ?_
      rw [made, ← top.context.chain.getLast?_toList]
      exact layout.stacked.layers.outermost top (contexts ▸ List.mem_cons_self)

theorem advance : session.advance.2.Layout := by
  have makes := layout.advance_makes
  obtain ⟨present, among, global, stacked⟩ := layout
  have turned := advance_turned among
  obtain ⟨heap, stack⟩ := turned.among among.heap among.stack fun _ _ _ => trivial
  have globals := session.advance_settings.globals
  refine ⟨?_, ⟨heap, stack⟩, ?_, ?_⟩
  · rw [globals]
    exact Nat.lt_of_lt_of_le present turned.size
  · rw [globals]
    intro function member script entry body
    rcases makes function member with old | made
    · exact global function old script entry body
    · exact made
  · rw [globals]
    refine turned.stacked present stacked fun old callee waiting below stack opened => ?_
    exact advance_opened global stack opened

theorem run {after : Session} {script : Script} (parsed : script.Parsed)
    (started : session.run script = .ok after) : after.Layout := by
  obtain ⟨present, among, global, _⟩ := layout
  unfold Session.run at started
  split at started
  · cases started
  · cases started
    have functions := functions_releaseAll session.stack session.heap
    have size := size_releaseAll session.stack session.heap
    have scope := (Context.base script session.globals).keepsScope_enter script.first none none none
    exact ⟨size ▸ present, ⟨among_of_functions among.heap functions,
      List.forall_mem_singleton.mpr ⟨(Context.Among.new parsed.plain).enter _ _ _ _, trivial⟩⟩,
      global.of_functions functions, .base (size ▸ present) scope.kind scope.chain⟩

/-- When a host can do something, all contexts rest. -/
theorem resting (settled : session.isSettled = true) :
    ∀ activation ∈ session.stack, activation.activity = .resting := by
  have waiting := layout.stacked.waiting
  unfold isSettled at settled
  cases stack : session.stack with
  | nil => exact List.forall_mem_nil _
  | cons top below =>
      rw [stack] at settled
      have rests : top.rests = true := by
        cases below <;> simp_all
      have active : top.activity = .resting := by
        unfold Activation.rests at rests
        split at rests
        · assumption
        · cases rests
      refine List.forall_mem_cons.mpr ⟨active, ?_⟩
      cases waiting top below stack with
      | rests resting => exact resting
      | opened opens _ =>
          unfold Activation.Opens at opens
          unfold Activation.awaits at settled
          split at opens <;> simp_all

theorem enter {bound : Session} {function : FunctionRef} {script : Script}
    {entry : Option StatementRef} {arguments : List Value} {receiver : Option Value}
    {context : Context} (settled : session.isSettled = true)
    (body : (session.heap.function function).body = .script script entry)
    (called : session.callContext script entry (session.heap.function function).parameters
      (session.heap.function function).globals arguments receiver = (context, bound)) :
    (bound.push context).Layout := by
  have resting := layout.resting settled
  obtain ⟨present, among, global, stacked⟩ := layout
  obtain ⟨kind, parents⟩ := callContext_scope global body
    (session.heap.function function).parameters arguments receiver
  obtain ⟨fresh, contextAmong, heapAmong, writes⟩ := callContext_among among.heap
    (among.heap.scripts function script entry body) entry
    (session.heap.function function).parameters (session.heap.function function).globals
    (fun argument (_ : argument ∈ arguments) => among_any argument)
    (fun value (_ : value ∈ receiver) => among_any value)
  obtain ⟨_, _, same, functions⟩ := session.callContext_keeps script entry
    (session.heap.function function).parameters (session.heap.function function).globals
    arguments receiver
  have globals : bound.globals = session.globals :=
    congrArg (fun opened => opened.2.globals) (called.symm.trans same)
  have stack : bound.stack = session.stack :=
    congrArg (fun opened => opened.2.stack) (called.symm.trans same)
  have kept : bound.heap.functions = session.heap.functions :=
    (congrArg (fun opened => opened.2.heap.functions) (called.symm.trans same)).trans functions
  rw [called] at kind parents fresh contextAmong heapAmong writes
  unfold Session.push
  rw [stack]
  refine ⟨?_, ⟨heapAmong, List.forall_mem_cons.mpr ⟨⟨contextAmong, trivial⟩, among.stack⟩⟩, ?_, ?_⟩
  · exact globals ▸ Nat.lt_of_lt_of_le present writes.size
  · exact globals ▸ global.of_functions kept
  · rw [globals]
    refine stacked.push present fresh writes.size ?_ (.function kind parents) (.rests resting)
    rw [parents]
    exact List.forall_mem_singleton.mpr present

theorem pop (settled : session.isSettled = true) : session.pop.2.Layout := by
  have resting := layout.resting settled
  obtain ⟨present, among, global, stacked⟩ := layout
  unfold Session.pop
  split
  · exact ⟨present, among, global, stacked⟩
  · next top below stack =>
      rw [stack] at stacked resting
      have functions := top.context.functions_release session.heap
      have size := size_release top.context session.heap
      have belowRests := (List.forall_mem_cons.mp resting).2
      refine ⟨size ▸ present, ⟨among_of_functions among.heap functions, fun activation member =>
        among.stack activation (stack ▸ List.mem_cons_of_mem top member)⟩,
        global.of_functions functions, ?_⟩
      refine ⟨@Layered.suffix _ below [top] stacked.layers, ?_, fun activation member => ?_⟩
      · rintro first rest rfl
        exact .rests (List.forall_mem_cons.mp belowRests).2
      · rw [size]
        exact stacked.visible activation (List.mem_cons_of_mem top member)

theorem clear : session.clear.Layout := by
  obtain ⟨present, among, global, _⟩ := layout
  have functions := functions_releaseAll session.stack session.heap
  have size := size_releaseAll session.stack session.heap
  refine ⟨size ▸ present, ⟨among_of_functions among.heap functions, List.forall_mem_nil _⟩,
    global.of_functions functions, .nil, ?_, List.forall_mem_nil _⟩
  rintro _ _ ⟨⟩

theorem install (name : String) (parameters : List String) (action : NativeAction) :
    (session.install name parameters action).Layout := by
  obtain ⟨present, among, global, stacked⟩ := layout
  have native {script : Script} {entry : Option StatementRef} {function : Function}
      (installed : function = ⟨name, parameters, .native action, none⟩)
      (body : function.body = .script script entry) : False := by
    rw [installed] at body
    cases body
  have size : session.heap.records.size =
      (session.install name parameters action).heap.records.size := by
    simp [Session.install, Heap.installNative, Heap.newFunction, Heap.setMember,
      Heap.modifyRecord]
  refine ⟨size ▸ present, ⟨(among.heap.newFunction fun script entry body => ?_).setMember
    (by trivial), among.stack⟩, fun function member script entry body => ?_,
    stacked.grow (Nat.le_of_eq size)⟩
  · exact (native rfl body).elim
  · rcases Array.mem_push.mp member with old | installed
    · exact global function old script entry body
    · exact (native installed body).elim

theorem other {after : Session} (kept : session.KeepsContexts after)
    (globals : after.globals = session.globals)
    (size : session.heap.records.size ≤ after.heap.records.size) : after.Layout := by
  obtain ⟨present, among, global, stacked⟩ := layout
  refine ⟨globals ▸ Nat.lt_of_lt_of_le present size,
    ⟨among_of_functions among.heap kept.functions, ?_⟩, ?_, ?_⟩
  · rw [kept.stack]
    exact among.stack
  · rw [globals]
    exact global.of_functions kept.functions
  · rw [globals, kept.stack]
    exact stacked.grow size

end Layout

private theorem global_installAll {globals : RecordRef} {heap : Heap}
    (global : heap.Global globals) (target : RecordRef)
    (functions : List (String × List String × NativeAction)) :
    (heap.installAll target functions).Global globals := by
  unfold Heap.installAll
  induction functions generalizing heap with
  | nil => exact global
  | cons function functions ih =>
      refine ih fun other member script entry body => ?_
      rcases Array.mem_push.mp member with old | rfl
      · exact global other old script entry body
      · cases body

theorem layout_new (timeLimit : Option Nat) : (Session.new timeLimit).Layout := by
  obtain ⟨present, among, _⟩ := sheltered_new timeLimit
  refine ⟨present, ⟨⟨fun _ value _ => among_any value, fun _ _ value _ => among_any value,
    among.heap.scripts⟩, List.forall_mem_nil _⟩, ?_, .nil, ?_, List.forall_mem_nil _⟩
  · intro function member
    have empty : (Heap.empty.newRecord .empty).2.Global (Session.new timeLimit).globals := by
      intro function member
      simp [Heap.empty, Heap.newRecord] at member
    have library := global_installAll empty (Heap.empty.newRecord .empty).1 libraryFunctions
    generalize made : Heap.installAll _ _ libraryFunctions = installed at library
    have opened : (installed.newRecord .empty).2.Global (Session.new timeLimit).globals := library
    refine global_installAll opened (installed.newRecord .empty).1 libraryMethods function ?_
    rw [← made]
    exact member
  · rintro _ _ ⟨⟩

/-- Every session of running scripts is laid out as it should be. -/
theorem Staged.layout {session : Session} (staged : session.Staged) : session.Layout := by
  induction staged with
  | new timeLimit => exact layout_new timeLimit
  | advance _ ih => exact ih.advance
  | run _ parsed started ih => exact ih.run parsed started
  | enter _ settled body called ih => exact ih.enter settled body called
  | pop _ settled ih => exact ih.pop settled
  | clear _ ih => exact ih.clear
  | breakOut _ _ count ih =>
      exact ih.modifyContext fun context among =>
        ⟨context.keepsScope_breakOut count, among.breakOut count⟩
  | nextLoopPass _ _ ih =>
      exact ih.modifyContext fun context among =>
        ⟨context.keepsScope_nextLoopPass, among.nextLoopPass⟩
  | reset _ _ ih =>
      exact ih.modifyContext fun context among => ⟨⟨rfl, ⟨rfl, rfl⟩, rfl⟩, among.reset⟩
  | install _ name parameters action ih => exact ih.install name parameters action
  | other _ kept globals size ih => exact ih.other kept globals size

/-!
## Calls of native functions
-/

/-- How a turn goes on in which a native function has been called. -/
def settleNative (scope : Option Value) (top : Activation) (below : List Activation) (span : Span) :
    Except RuntimeCause Value × Session → Progress × Session
  | (.ok value, session) =>
      (.working,
        session.modifyContext fun context =>
          { context with evaluation := context.evaluation.pushResult value scope })
  | (.error cause, session) => session.raise (.placed cause span) top below

theorem advance_native {session : Session} {context : Context} {continuation : Continuation}
    {below : List Activation} {request : CallRequest} {scope : Option Value}
    {evaluation : Evaluation} {heap : Heap} {action : NativeAction}
    (stack : session.stack = ⟨context, .evaluating continuation⟩ :: below)
    (called : context.evaluation.advance session.heap = (.call request scope, evaluation, heap))
    (body : (heap.function request.function).body = .native action)
    (arity : (heap.function request.function).checkArity request.arguments.length = .ok ()) :
    session.advance =
      settleNative scope ⟨{ context with evaluation }, .evaluating continuation⟩ below request.span
        (runNative
          { session with
            heap
            stack := ⟨{ context with evaluation }, .evaluating continuation⟩ :: below }
          action request.arguments request.receiver) := by
  simp only [advance, stack, called, beginCall, arity, body]
  generalize runNative _ _ _ _ = answer
  obtain ⟨answer, after⟩ := answer
  cases answer <;> rfl

/-- What a host gets from a native function that it has called. -/
def answerNative : Except RuntimeCause Value × Session → Answer Value × Session
  | (.ok value, session) => (.value value, session)
  | (.error cause, session) => (.failed (.unplaced cause), session)

theorem call_native {session : Session} {function : FunctionRef} {arguments : List Value}
    {action : NativeAction} (turns : Nat) (receiver : Option Value)
    (body : (session.heap.function function).body = .native action)
    (arity : (session.heap.function function).checkArity arguments.length = .ok ()) :
    session.call turns function arguments receiver =
      answerNative (session.runNative action arguments receiver) := by
  simp only [call, arity, body]
  generalize runNative _ _ _ _ = answer
  obtain ⟨answer, after⟩ := answer
  cases answer <;> rfl

/-- Below a context in the middle of a statement, those that it has been called from are in
the middle of one too. -/
theorem lists_of_waiting {top : Activation} {waiting resting : List Activation}
    (chain : (top :: waiting).IsChain fun callee caller => caller.Opens callee)
    (executes : top.rests = false) (rests : ∀ lower ∈ resting, lower.activity = .resting) :
    executingIn (top :: waiting ++ resting) =
        (top :: waiting).map (fun activation => activation.context.visible) ∧
      restingIn (top :: waiting ++ resting) = resting.map Activation.context := by
  have upper : ∀ activation ∈ top :: waiting, activation.rests = false := by
    refine List.forall_mem_cons.mpr ⟨executes, ?_⟩
    clear executes
    induction waiting generalizing top with
    | nil => exact List.forall_mem_nil _
    | cons caller waiting ih =>
        obtain ⟨opens, behind⟩ := List.isChain_cons_cons.mp chain
        exact List.forall_mem_cons.mpr ⟨opens.rests_eq_false, ih behind⟩
  have lower : ∀ activation ∈ resting, activation.rests = true := fun activation member =>
    Activation.rests_eq_true (rests activation member)
  rw [executingIn_append, restingIn_append, executingIn_of_executes upper,
    executingIn_of_rests lower, restingIn_of_executes upper, restingIn_of_rests lower]
  simp

/-- The two lists of a session whose innermost context is in the middle of a statement. -/
theorem lists_of_executing {session : Session} {caller : Activation} {below : List Activation}
    (stack : session.stack = caller :: below) (executes : caller.rests = false)
    (waits : Waits caller below) :
    ∃ waiting resting, below = waiting ++ resting ∧
      (caller :: waiting).IsChain (fun callee caller => caller.Opens callee) ∧
      (∀ lower ∈ resting, lower.activity = .resting) ∧
      session.depth = 1 + waiting.length + resting.length ∧
      session.executing = (caller :: waiting).map (fun activation => activation.context.visible) ∧
      session.executing.head? = some session.namespaces ∧
      session.resting = resting.map Activation.context ∧
      session.depth = session.resting.length + session.executing.length := by
  obtain ⟨waiting, resting, split, chain, rests⟩ := waits.split
  have whole : session.stack = caller :: waiting ++ resting := by
    rw [stack, split, List.cons_append]
  obtain ⟨executing, atRest⟩ := lists_of_waiting chain executes rests
  rw [← whole] at executing atRest
  have first : session.executing = _ := executing
  have current : ∀ top ∈ session.stack.head?, top.rests = true → session.executing = [] := by
    intro top member rests
    rw [stack] at member
    obtain rfl := Option.some.inj member
    rw [executes] at rests
    cases rests
  refine ⟨waiting, resting, split, chain, rests, ?_, executing, ?_, atRest, session.depth_eq⟩
  · rw [depth, whole, List.length_append, List.length_cons]
    omega
  · rw [namespaces_eq current, first]
    rfl

/-- The two lists of a session all of whose contexts are at rest. -/
theorem lists_of_resting {session : Session}
    (rests : ∀ activation ∈ session.stack, activation.activity = .resting) :
    session.executing = [] ∧ session.resting = session.stack.map Activation.context ∧
      session.namespaces = (session.resting.head?.elim [session.globals] Context.visible) ∧
      session.depth = session.resting.length + session.executing.length := by
  have allRest : ∀ activation ∈ session.stack, activation.rests = true := fun activation member =>
    Activation.rests_eq_true (rests activation member)
  have executing : session.executing = [] := executingIn_of_rests allRest
  refine ⟨executing, restingIn_of_rests allRest, ?_, session.depth_eq⟩
  rw [namespaces_eq fun _ _ _ => executing, executing]
  rfl

/-- In every session of running scripts, the chain of every context consists of its names
and its parents and ends with the globals, which every function of a script knows. A base
context sees the globals alone, a block all that the statement sees which opened it, and
a function, whoever calls it, its locals and the globals: the record of its locals is new
and nothing below sees it. A native function is given the chain of the context whose
statement calls it, and its depth counts this context, those that wait for it in turn and
those that rest; if a host calls it, all contexts rest, and it is given the chain of the
innermost one. So the chain is the first of those in the middle of a statement, or without
one that of the first context at rest, and the depth counts both kinds. -/
theorem contexts_see_their_scopes {session : Session} (staged : session.Staged) :
    (∀ upper top below, session.stack = upper ++ top :: below →
      top.context.visible = top.context.names :: top.context.chain.parents ∧
        top.context.visible.getLast? = some session.globals ∧
        top.context.Sees session.globals below) ∧
    (∀ function ∈ session.heap.functions, ∀ script entry,
      function.body = .script script entry → function.globals = some session.globals) ∧
    (∀ old callee waiting below, session.stack = old :: below →
      session.advance.2.stack = callee :: waiting :: below → callee.context.kind = .function →
        callee.context.visible = [callee.context.names, session.globals] ∧
          session.heap.records.size ≤ callee.context.names.address) ∧
    (∀ function script entry arguments receiver callee bound,
      (session.heap.function function).body = .script script entry →
      session.callContext script entry (session.heap.function function).parameters
          (session.heap.function function).globals arguments receiver = (callee, bound) →
        callee.visible = [callee.names, session.globals] ∧
          session.heap.records.size ≤ callee.names.address) ∧
    (∀ context continuation below request scope evaluation heap action,
      session.stack = ⟨context, .evaluating continuation⟩ :: below →
      context.evaluation.advance session.heap = (.call request scope, evaluation, heap) →
      (heap.function request.function).body = .native action →
      (heap.function request.function).checkArity request.arguments.length = .ok () →
        let caller : Activation := ⟨{ context with evaluation }, .evaluating continuation⟩
        let seen : Session := { session with heap, stack := caller :: below }
        session.advance = settleNative scope caller below request.span
            (seen.runNative action request.arguments request.receiver) ∧
          seen.namespaces = context.visible ∧
          ∃ waiting resting, below = waiting ++ resting ∧
            (caller :: waiting).IsChain (fun callee caller => caller.Opens callee) ∧
            (∀ lower ∈ resting, lower.activity = .resting) ∧
            seen.depth = 1 + waiting.length + resting.length ∧
            seen.executing = (caller :: waiting).map (fun activation =>
              activation.context.visible) ∧
            seen.executing.head? = some seen.namespaces ∧
            seen.resting = resting.map Activation.context ∧
            seen.depth = seen.resting.length + seen.executing.length) ∧
    ∀ turns function arguments receiver action, session.isSettled = true →
      (session.heap.function function).body = .native action →
      (session.heap.function function).checkArity arguments.length = .ok () →
        session.call turns function arguments receiver =
            answerNative (session.runNative action arguments receiver) ∧
          session.namespaces = (session.stack.head?.elim [session.globals]
            fun top => top.context.visible) ∧
          (∀ activation ∈ session.stack, activation.activity = .resting) ∧
          session.depth = session.stack.length ∧
          session.executing = [] ∧
          session.resting = session.stack.map Activation.context ∧
          session.namespaces = (session.resting.head?.elim [session.globals] Context.visible) ∧
          session.depth = session.resting.length + session.executing.length := by
  have layout := staged.layout
  obtain ⟨present, among, global, stacked⟩ := layout
  refine ⟨?_, global, ?_, ?_, ?_, ?_⟩
  · intro upper top below stack
    refine ⟨rfl, stacked.layers.outermost top (by simp [stack]), ?_⟩
    have layers := stacked.layers
    rw [stack] at layers
    cases layers.suffix with
    | cons sees => exact sees
  · intro old callee waiting below stack opened kind
    have fresh := ((advance_turned among).opened opened (by simp [stack])).fresh
    refine ⟨?_, fresh⟩
    cases advance_opened global stack opened with
    | called _ _ parents => exact congrArg (callee.context.names :: ·) parents
    | declared _ block =>
        rw [kind] at block
        cases block
  · intro function script entry arguments receiver callee bound body called
    obtain ⟨kind, parents⟩ := callContext_scope global body
      (session.heap.function function).parameters arguments receiver
    have opened := callContext_among among.heap
      (among.heap.scripts function script entry body) entry
      (session.heap.function function).parameters (session.heap.function function).globals
      (fun argument (_ : argument ∈ arguments) => among_any argument)
      (fun value (_ : value ∈ receiver) => among_any value)
    rw [called] at parents opened
    exact ⟨congrArg (callee.names :: ·) parents, opened.1.fresh⟩
  · intro context continuation below request scope evaluation heap action stack called body arity
      caller seen
    have place := (context.evaluation.advance_keeps session.heap).1
    rw [called] at place
    have waits := (stacked.waiting _ _ stack).keeps (show caller.context.kind = context.kind from rfl)
    exact ⟨advance_native stack called body arity, congrArg ScopeChain.toList place.chain,
      lists_of_executing rfl rfl waits⟩
  · intro turns function arguments receiver action settled body arity
    have rests := staged.layout.resting settled
    refine ⟨call_native turns receiver body arity, ?_, rests, rfl, lists_of_resting rests⟩
    unfold namespaces context?
    cases session.stack <;> rfl

/-- The next turn calls a native function. -/
def callsNative (session : Session) : Bool :=
  match session.stack with
  | ⟨context, .evaluating _⟩ :: _ =>
      match context.evaluation.advance session.heap with
      | (.call request _, _, heap) =>
          match (heap.function request.function).body with
          | .native _ => ((heap.function request.function).checkArity
              request.arguments.length).toOption.isSome
          | .script .. => false
      | _ => false
  | _ => false

theorem eq_of_callsNative {session : Session} (passed : session.callsNative = true) :
    ∃ context continuation below request scope evaluation heap action,
      session.stack = ⟨context, .evaluating continuation⟩ :: below ∧
      context.evaluation.advance session.heap = (.call request scope, evaluation, heap) ∧
      (heap.function request.function).body = .native action ∧
      (heap.function request.function).checkArity request.arguments.length = .ok () := by
  unfold callsNative at passed
  split at passed
  · next context continuation below stack =>
      split at passed
      · next request scope evaluation heap called =>
          split at passed
          · next action body =>
              cases arity : (heap.function request.function).checkArity
                  request.arguments.length with
              | error cause =>
                  rw [arity] at passed
                  cases passed
              | ok =>
                  exact ⟨context, continuation, below, request, scope, evaluation, heap, action,
                    stack, called, body, arity⟩
          · cases passed
      · cases passed
  · cases passed

/-- The first script defines `f`. The block of a record in the second one calls it, and a
native function that `f` calls sees the locals of `f` and the globals, but not the record. -/
theorem contexts_see_their_scopes_across_scripts :
    ∃ session : Session, session.Staged ∧
      ∃ context continuation below request scope evaluation heap action,
        session.stack = ⟨context, .evaluating continuation⟩ :: below ∧
        context.evaluation.advance session.heap = (.call request scope, evaluation, heap) ∧
        (heap.function request.function).body = .native action ∧
        let caller : Activation := ⟨{ context with evaluation }, .evaluating continuation⟩
        let seen : Session := { session with heap, stack := caller :: below }
        session.advance = settleNative scope caller below request.span
            (seen.runNative action request.arguments request.receiver) ∧
          seen.namespaces = [context.names, session.globals] ∧ seen.depth = 3 := by
  have passed : ((Script.ofSource "def f(x)\nreturn len(x)\nend\n").toOption.any fun script =>
      ((Session.new none).run script).toOption.any fun defining =>
        (Script.ofSource "record r\ny = f(\"a\")\nend\n").toOption.any fun script =>
          ((defining.execute 50).2.run script).toOption.any fun started =>
            let session := (fun session => session.advance.2)^[8] started
            session.callsNative && session.depth == 3 &&
              session.stack.head?.any fun top => top.context.kind == .function) = true := by
    decide +kernel
  obtain ⟨script, defining, accepted, begun, passed⟩ := eq_of_runs passed
  obtain ⟨later, started, laterAccepted, laterBegun, passed⟩ := eq_of_runs passed
  simp only [Bool.and_eq_true] at passed
  obtain ⟨⟨calls, depth⟩, function⟩ := passed
  have first : defining.Staged := .run (.new none) (Script.parsed_ofSource accepted) begun
  have staged := (Staged.run (first.execute 50) (Script.parsed_ofSource laterAccepted)
    laterBegun).turns 8
  obtain ⟨context, continuation, below, request, scope, evaluation, heap, action, stack, called,
    body, arity⟩ := eq_of_callsNative calls
  obtain ⟨chains, _, _, _, natives, _⟩ := contexts_see_their_scopes staged
  obtain ⟨advances, namespaces, _⟩ := natives _ _ _ _ _ _ _ _ stack called body arity
  refine ⟨_, staged, context, continuation, below, request, scope, evaluation, heap, action, stack,
    called, body, advances, namespaces.trans ?_, ?_⟩
  · obtain ⟨_, _, sees⟩ := chains [] _ below stack
    rw [stack] at function
    have isFunction : context.kind = .function := eq_of_beq function
    cases sees with
    | function _ parents _ => exact congrArg (context.names :: ·) parents
    | base kind | block kind => exact nomatch isFunction.symm.trans kind
  · have length := eq_of_beq depth
    rw [Session.depth, stack] at length
    exact length

end Session

end ScriptEngine
