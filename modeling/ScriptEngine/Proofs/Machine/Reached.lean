import ScriptEngine.Proofs.Machine.Invariant

/-!
# The sessions that a host can reach

A host starts with a new session, installs native functions and runs scripts that
the parser gave it, one after another. Between two statements it may jump, reset,
call functions, suspend and stop. Every local invariant holds of all sessions that
come about in this way (`LocalInvariant.reached_fine`).
-/

set_option autoImplicit false

namespace ScriptEngine

namespace Session

/-- One thing that happens to a session: a turn, or something that a host does. -/
inductive Operation : Session → Session → Prop where
  | advance (session : Session) : Operation session session.advance.2
  | run {session after : Session} {script : Script} (parsed : script.Parsed)
      (started : session.run script = .ok after) : Operation session after
  | install (session : Session) (name : String) (parameters : List String)
      (action : NativeAction) : Operation session (session.install name parameters action)
  /-- A host calls a function: the context that runs it is put above the others. -/
  | call {session bound : Session} {function : FunctionRef} {script : Script}
      {entry : Option StatementRef} {arguments : List Value} {receiver : Option Value}
      {context : Context} (body : (session.heap.function function).body = .script script entry)
      (called : session.callContext script entry (session.heap.function function).parameters
        (session.heap.function function).globals arguments receiver = (context, bound)) :
      Operation session (bound.push context)
  | pop (session : Session) : Operation session session.pop.2
  | clear (session : Session) : Operation session session.clear
  | breakOut (session : Session) (settled : session.isSettled = true) (count : Nat) :
      Operation session (session.modifyContext fun context => (context.breakOut count).2)
  | nextLoopPass (session : Session) (settled : session.isSettled = true) :
      Operation session (session.modifyContext fun context => context.nextLoopPass.2)
  | reset (session : Session) (settled : session.isSettled = true) :
      Operation session (session.modifyContext Context.reset)
  /-- Whatever leaves contexts and functions alone: time passes, a script is
  suspended or goes on, a native function or an expression of the host is run. -/
  | other {session after : Session} (kept : session.KeepsContexts after) : Operation session after

/-- The session comes about from a new one. -/
inductive Reached : Session → Prop where
  | new (timeLimit : Option Nat) : Reached (Session.new timeLimit)
  | operation {session after : Session} (reached : session.Reached)
      (operation : session.Operation after) : after.Reached

theorem functions_releaseAll (stack : List Activation) (heap : Heap) :
    (releaseAll stack heap).functions = heap.functions := by
  unfold releaseAll
  induction stack generalizing heap with
  | nil => rfl
  | cons activation stack ih =>
      rw [List.foldl_cons, ih]
      exact activation.context.functions_release heap

theorem run_ok {session after : Session} {script : Script} (started : session.run script = .ok after) :
    after.stack =
        [⟨(Context.base script session.globals).enter script.first none none none, .resting⟩] ∧
      after.heap.functions = session.heap.functions := by
  unfold run at started
  split at started
  · cases started
  · cases started
    exact ⟨rfl, functions_releaseAll _ _⟩

/-!
## What a host calls
-/

namespace Reached

variable {session : Session} (reached : session.Reached)

include reached

theorem kept {after : Session} (same : session.KeepsContexts after) : after.Reached :=
  .operation reached (.other same)

theorem suspend (suspended : Bool) : (session.suspend suspended).Reached := by
  refine reached.kept ?_
  unfold Session.suspend
  split <;> exact ⟨rfl, rfl⟩

theorem stop : session.stop.Reached :=
  (operation reached (.clear session)).kept ⟨rfl, rfl⟩

theorem finishStatement (turns : Nat) : (Session.finishStatement turns session).2.Reached := by
  induction turns generalizing session with
  | zero => exact reached
  | succ turns ih =>
      have turn := operation reached (.advance session)
      unfold Session.finishStatement
      split
      · exact reached
      · generalize session.advance = answer at turn
        obtain ⟨progress, after⟩ := answer
        cases progress with
        | working => exact ih turn
        | idle | failed | endless => exact turn

theorem step (turns : Nat) : (Session.step turns session).2.Reached := by
  have turn := operation reached (.advance session)
  unfold Session.step
  generalize session.advance = answer at turn
  obtain ⟨progress, begun⟩ := answer
  cases progress with
  | idle | failed | endless => exact turn
  | working =>
      have finished := finishStatement turn turns
      dsimp only
      generalize Session.finishStatement turns begun = answer at finished
      obtain ⟨answer, after⟩ := answer
      cases answer <;> exact finished

theorem execute (turns : Nat) : (Session.execute turns session).2.Reached := by
  induction turns generalizing session with
  | zero => exact reached
  | succ turns ih =>
      have turn := operation reached (.advance session)
      unfold Session.execute
      split
      · exact reached
      · generalize session.advance = answer at turn
        obtain ⟨progress, after⟩ := answer
        cases progress with
        | working => exact ih turn
        | idle | failed failure => exact turn.kept ⟨rfl, rfl⟩
        | endless => exact turn

theorem runToEnd (turns : Nat) : (Session.runToEnd turns session).2.Reached := by
  induction turns generalizing session with
  | zero => exact reached
  | succ turns ih =>
      have turn := operation reached (.advance session)
      unfold Session.runToEnd
      generalize session.advance = answer at turn
      obtain ⟨progress, after⟩ := answer
      cases progress with
      | working => exact ih turn
      | idle | failed | endless => exact turn

theorem call (turns : Nat) (function : FunctionRef) (arguments : List Value)
    (receiver : Option Value) :
    (session.call turns function arguments receiver).2.Reached := by
  unfold Session.call
  dsimp only
  split
  · exact reached
  · split
    · next action _ =>
        have native := reached.kept (session.runNative_keeps action arguments receiver)
        generalize session.runNative action arguments receiver = answer at native
        obtain ⟨answer, after⟩ := answer
        cases answer <;> exact native
    · next script entry body =>
        generalize called : session.callContext script entry _ _ arguments receiver = opened
        obtain ⟨context, bound⟩ := opened
        have pushed := operation reached (.call body called)
        have timed : ({ bound with startedAt := some bound.now }.push context).Reached :=
          pushed.kept ⟨rfl, rfl⟩
        have ran := timed.runToEnd turns
        simp only [runContext]
        generalize Session.runToEnd turns _ = answer at ran
        obtain ⟨answer, after⟩ := answer
        have ended : ({ after with startedAt := bound.startedAt } : Session).Reached :=
          ran.kept ⟨rfl, rfl⟩
        have popped := operation ended (.pop _)
        cases answer with
        | value | failed failure => exact popped
        | unfinished => exact ran

end Reached

end Session

namespace LocalInvariant

variable {invariant : LocalInvariant}

private theorem installAll_fine (kept : invariant.KeptByTurns) {heap : Heap} (target : RecordRef)
    (functions : List (String × List String × NativeAction)) (fine : invariant.HeapFine heap) :
    invariant.HeapFine (heap.installAll target functions) := by
  unfold Heap.installAll
  induction functions generalizing heap with
  | nil => exact fine
  | cons function functions ih =>
      rw [List.foldl_cons]
      exact ih ((fine.newFunction (kept.native rfl)).of_keeps rfl)

private theorem newGlobals_fine (kept : invariant.KeptByTurns) {heap : Heap}
    (fine : invariant.HeapFine heap) : invariant.HeapFine heap.newGlobals.2 := by
  have first : invariant.HeapFine (heap.newRecord .empty).2 := fine.of_keeps rfl
  have second := installAll_fine kept (heap.newRecord .empty).1 libraryFunctions first
  generalize global : Heap.installAll _ _ _ = installed at second
  have third : invariant.HeapFine (installed.newRecord .empty).2 := second.of_keeps rfl
  have fourth := installAll_fine kept (installed.newRecord .empty).1 libraryMethods third
  unfold Heap.newGlobals
  dsimp only
  rw [global]
  exact fourth

theorem new_fine (kept : invariant.KeptByTurns) (timeLimit : Option Nat) :
    invariant.SessionFine (Session.new timeLimit) := by
  have empty : invariant.HeapFine Heap.empty := by
    intro function member
    simp [Heap.empty] at member
  exact ⟨newGlobals_fine kept empty, List.forall_mem_nil _⟩

/-- A jump of a host, which happens when the innermost context is at rest. -/
private theorem modifyContext_fine {session : Session} {change : Context → Context}
    (settled : session.isSettled = true) (fine : invariant.SessionFine session)
    (changed : ∀ context : Context, invariant.Fine context .resting →
      invariant.Fine (change context) .resting ∧
        invariant.Moves context.frames (change context).frames) :
    invariant.SessionFine (session.modifyContext change) ∧
      invariant.StackMoves session.stack (session.modifyContext change).stack := by
  cases stack : session.stack with
  | nil =>
      have same : session.modifyContext change = session := by
        simp only [Session.modifyContext, stack]
      rw [same, stack]
      exact ⟨fine, .stays _⟩
  | cons top below =>
      have rests : top.activity = .resting := by
        unfold Session.isSettled at settled
        rw [stack] at settled
        have rests : top.rests = true := by
          cases below <;> simp_all
        unfold Activation.rests at rests
        split at rests
        · assumption
        · cases rests
      have topFine : invariant.Fine top.context top.activity :=
        fine.stack top (stack ▸ List.mem_cons_self)
      obtain ⟨newFine, moves⟩ := changed top.context (rests ▸ topFine)
      rw [Session.modifyContext_of_stack stack]
      refine ⟨⟨fine.heap, List.forall_mem_cons.mpr ⟨by rw [rests]; exact newFine, ?_⟩⟩,
        .top below moves⟩
      exact fun activation member => fine.stack activation (stack ▸ List.mem_cons_of_mem top member)

theorem operation_fine (kept : invariant.Kept) {session after : Session}
    (operation : session.Operation after) (fine : invariant.SessionFine session) :
    invariant.SessionFine after ∧ invariant.StackMoves session.stack after.stack := by
  cases operation with
  | advance =>
      have turn := advance_fine kept.toKeptByTurns fine
      exact ⟨turn.session, turn.moves⟩
  | run parsed started =>
      obtain ⟨stack, functions⟩ := Session.run_ok started
      obtain ⟨contextFine, fresh⟩ := kept.runs parsed session.globals
      refine ⟨⟨fine.heap.of_keeps functions, ?_⟩, ?_⟩
      · rw [stack]
        exact List.forall_mem_singleton.mpr contextFine
      · rw [stack, ← List.append_nil session.stack]
        exact .replaces session.stack [_] [] (List.forall_mem_singleton.mpr fresh)
  | install name parameters action =>
      exact ⟨⟨(fine.heap.newFunction (kept.native rfl)).of_keeps rfl, fine.stack⟩, .stays _⟩
  | @call bound function script entry arguments receiver context body called =>
      obtain ⟨locals, heap, opened, functions⟩ := session.callContext_keeps script entry
        (session.heap.function function).parameters (session.heap.function function).globals
        arguments receiver
      obtain ⟨contextFine, fresh⟩ := kept.enters (fine.heap.function kept.toKeptByTurns function) body
        locals ((session.heap.function function).globals.getD session.globals)
      obtain ⟨rfl, rfl⟩ := Prod.mk.inj (called.symm.trans opened)
      exact ⟨⟨fine.heap.of_keeps functions, List.forall_mem_cons.mpr ⟨contextFine, fine.stack⟩⟩,
        .replaces [] [_] session.stack (List.forall_mem_singleton.mpr fresh)⟩
  | pop =>
      refine ⟨pop_fine fine, ?_⟩
      unfold Session.pop
      split
      · next stack => exact stack ▸ .stays _
      · next top below stack =>
          rw [stack]
          exact .replaces [top] [] below (List.forall_mem_nil _)
  | clear =>
      refine ⟨⟨fine.heap.of_keeps (Session.functions_releaseAll _ _), List.forall_mem_nil _⟩, ?_⟩
      rw [← List.append_nil session.stack]
      exact .replaces session.stack [] [] (List.forall_mem_nil _)
  | breakOut settled count =>
      exact modifyContext_fine settled fine fun _ contextFine => kept.breaks contextFine count
  | nextLoopPass settled =>
      exact modifyContext_fine settled fine fun _ contextFine => kept.continues contextFine
  | reset settled =>
      exact modifyContext_fine settled fine fun _ contextFine => kept.resets contextFine
  | other same =>
      rw [same.stack]
      exact ⟨⟨fine.heap.of_keeps same.functions, same.stack ▸ fine.stack⟩, .stays _⟩

/-- Every session that a host can reach satisfies every local invariant. -/
theorem reached_fine (kept : invariant.Kept) {session : Session} (reached : session.Reached) :
    invariant.SessionFine session := by
  induction reached with
  | new timeLimit => exact new_fine kept.toKeptByTurns timeLimit
  | operation _ operation ih => exact (operation_fine kept operation ih).1

end LocalInvariant

end ScriptEngine
