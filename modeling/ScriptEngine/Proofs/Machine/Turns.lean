import ScriptEngine.Proofs.Control.Leaving
import ScriptEngine.Proofs.Machine.Invariant
import ScriptEngine.Proofs.Machine.Expression

/-!
# The turns of a running script

The turns of a session, seen from one context of its stack, make a machine. It
fails when an error is raised in this context. That the machine follows an effect
for a number of turns leads to following it for one turn more from one turn before.
-/

set_option autoImplicit false

namespace ScriptEngine

/-- A native function that neither suspends nor looks at contexts. -/
def NativeAction.Plain : NativeAction → Prop
  | .suspend => False
  | .report => False
  | _ => True

/-- A function that a script can come by: of the library, or defined by a script
that is laid out. -/
def Function.Known (function : Function) : Prop :=
  match function.body with
  | .native action => action.Plain
  | .script script entry => ∃ body start stop,
      BlockLaid script body entry start stop ∧ stop ≤ script.statements.size

namespace Session

/-- A session that runs without a time limit, with known functions only. -/
structure Sound (session : Session) : Prop where
  running : session.state = .running
  unlimited : session.timeLimit = none
  known : ∀ function ∈ session.heap.functions, function.Known

theorem Sound.onHeap {session : Session} (sound : session.Sound) {heap : Heap}
    (same : heap.functions = session.heap.functions) : Sound { session with heap } :=
  { sound with known := by rw [same]; exact sound.known }

theorem Sound.tick {session : Session} (sound : session.Sound) :
    Sound { session with now := session.now + 1 } :=
  { sound with }

/-- So many turns lead from the first session to the second. -/
def Runs : Nat → Session → Session → Prop
  | 0, first, last => first = last
  | turns + 1, first, last => first.state = .running ∧
      ∃ middle, first.advance = (.working, middle) ∧ Runs turns middle last

namespace Runs

theorem append {turns more : Nat} {first second third : Session} (early : Runs turns first second)
    (late : Runs more second third) : Runs (turns + more) first third := by
  induction turns generalizing first with
  | zero =>
      obtain rfl := early
      rwa [Nat.zero_add]
  | succ turns ih =>
      obtain ⟨running, middle, turn, rest⟩ := early
      rw [Nat.add_right_comm]
      exact ⟨running, middle, turn, ih rest⟩

theorem fewer {turns more : Nat} {first last : Session} (runs : Runs turns first last)
    (le : more ≤ turns) : ∃ middle, Runs more first middle := by
  induction more generalizing turns first with
  | zero => exact ⟨first, rfl⟩
  | succ more ih =>
      obtain ⟨turns, rfl⟩ := Nat.exists_eq_succ_of_ne_zero (Nat.ne_zero_of_lt le)
      obtain ⟨running, next, turn, rest⟩ := runs
      obtain ⟨middle, begun⟩ := ih rest (Nat.le_of_succ_le_succ le)
      exact ⟨middle, running, next, turn, begun⟩

end Runs

/-- The first session is busy for so many turns: it takes them all, or comes before
that to a turn that goes on forever. -/
def Lasts (turns : Nat) (first : Session) : Prop :=
  (∃ last, Runs turns first last) ∨
    ∃ fewer stop last, Runs fewer first stop ∧ stop.state = .running ∧
      stop.advance = (.endless, last)

theorem Lasts.fewer {turns more : Nat} {first : Session} (lasts : Lasts turns first)
    (le : more ≤ turns) : Lasts more first := by
  obtain ⟨last, runs⟩ | endless := lasts
  · exact .inl (runs.fewer le)
  · exact .inr endless

theorem Runs.andLasts {turns more : Nat} {first middle : Session} (runs : Runs turns first middle)
    (lasts : Lasts more middle) : Lasts (turns + more) first := by
  obtain ⟨last, rest⟩ | ⟨fewer, stop, last, rest, endless⟩ := lasts
  · exact .inl ⟨last, runs.append rest⟩
  · exact .inr ⟨turns + fewer, stop, last, runs.append rest, endless⟩

end Session

/-- Where a context runs: what stays the same about it, and the contexts below. -/
structure Place extends Scope where
  below : List Activation

namespace Place

open Session (Lasts Runs Sound)

variable (place : Place)

/-- The session with the context on top, between two statements. -/
def resting (context : Context) (session : Session) : Session :=
  { session with stack := ⟨context, .resting⟩ :: place.below }

/-- The session with the context on top, in the middle of an evaluation. -/
def evaluating (frames : List Frame) (continuation : Continuation) (evaluation : Evaluation)
    (session : Session) : Session :=
  { session with
    stack := ⟨{ place.context frames with evaluation }, .evaluating continuation⟩ :: place.below }

/-- The turns of sessions that have this context, as long as nobody waits for more
than `patience` turns. -/
def machine (patience : Nat) : Machine where
  Configuration := Session
  Reaches start stop := ∃ turns, Runs turns start stop
  Lasts start := Lasts patience start
  Fails failure after start := ∃ turns stop, ∃ top : Activation, Runs turns start stop ∧
    stop.state = .running ∧ top.context.ownsNames = place.ownsNames ∧
    top.context.names = place.chain.names ∧ stop.advance = after.raise failure top place.below
  refl start := ⟨0, rfl⟩
  trans early late := by
    obtain ⟨turns, early⟩ := early
    obtain ⟨more, late⟩ := late
    exact ⟨turns + more, early.append late⟩
  lasts reached lasts := by
    obtain ⟨turns, reached⟩ := reached
    exact (reached.andLasts lasts).fewer (Nat.le_add_left _ _)
  fails reached fails := by
    obtain ⟨turns, reached⟩ := reached
    obtain ⟨more, stop, top, failing, rest⟩ := fails
    exact ⟨turns + more, stop, top, reached.append failing, rest⟩

variable {place} {α : Type} {patience : Nat} {start middle : Session}
  {arrives : α → Session → Session → Prop} {answer : Answer α × Session}

theorem reaches_of_turn (running : start.state = .running)
    (turn : start.advance = (.working, middle)) : (place.machine patience).Reaches start middle :=
  ⟨1, running, middle, turn, rfl⟩

theorem follows_of_turn (running : start.state = .running)
    (turn : start.advance = (.working, middle))
    (follows : (place.machine patience).Follows middle arrives answer) :
    (place.machine (patience + 1)).Follows start arrives answer := by
  obtain ⟨answer, after⟩ := answer
  cases answer with
  | value value =>
      obtain ⟨stop, ⟨turns, runs⟩, arrived⟩ := follows
      exact ⟨stop, ⟨turns + 1, running, middle, turn, runs⟩, arrived⟩
  | failed failure =>
      obtain ⟨turns, stop, top, runs, rest⟩ := follows
      exact ⟨turns + 1, stop, top, ⟨running, middle, turn, runs⟩, rest⟩
  | unfinished =>
      have one : Runs 1 start middle := ⟨running, middle, turn, rfl⟩
      exact (one.andLasts follows).fewer (by omega)

theorem follows_of_le {less : Nat} (le : less ≤ patience)
    (follows : (place.machine patience).Follows start arrives answer) :
    (place.machine less).Follows start arrives answer := by
  obtain ⟨answer, after⟩ := answer
  cases answer with
  | value value => exact follows
  | failed failure => exact follows
  | unfinished => exact Session.Lasts.fewer follows le

/-- Each pass of a loop takes a turn, so no more passes than turns are waited for. -/
theorem repeatPass_follows {β : Type} {pass : β → Effect (Exit ⊕ β)}
    (At : β → Session → Session → Prop) {arrives : Exit → Session → Session → Prop}
    (step : ∀ state session config, At state session config → config.state = .running ∧
      ∃ middle, config.advance = (.working, middle) ∧
        (place.machine patience).Follows middle (fun answer after stop =>
          match answer with
          | .inl exit => arrives exit after stop
          | .inr next => At next after stop) (pass state session))
    {bound : Nat} (le : bound ≤ patience) {state : β} {session config : Session}
    (begun : At state session config) :
    (place.machine bound).Follows config arrives
      (Effect.repeatPass pass bound state session) := by
  induction bound generalizing state session config with
  | zero => exact .inl ⟨config, rfl⟩
  | succ bound ih =>
      obtain ⟨running, middle, turn, follows⟩ := step state session config begun
      refine follows_of_turn running turn ?_
      refine Machine.Follows.bind (follows_of_le (Nat.le_of_succ_le le) follows) ?_
      intro answer after stop arrived
      cases answer with
      | inl exit => exact .pure arrived
      | inr next => exact ih (Nat.le_of_succ_le le) arrived

end Place

end ScriptEngine
