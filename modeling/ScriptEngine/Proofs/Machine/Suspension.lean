import ScriptEngine.Proofs.Machine.Execution
import ScriptEngine.Proofs.Machine.Muted

/-!
# Suspension does not show in what a script does

A script can ask to be suspended in the middle of any statement, however deep in calls
and record blocks. Between the statements of the outermost context a host can take single
steps, let the script go on, suspend it and wait, in any order. Only the clock tells the
script about this. As long as it does not look there, every schedule of a host that comes
to an end has written the same text, left the same globals and come to the same end as
one run without a break in which the functions that ask for a suspension do nothing
(`Session.schedules_agree`).

The two runs take the same turns side by side: the undisturbed one is the other one
muted, at a time and in a state of its own.
-/

set_option autoImplicit false

namespace ScriptEngine

theorem SessionState.Becomes.live {before after : SessionState} (becomes : before.Becomes after)
    (live : before ≠ .stopped) : after ≠ .stopped := by
  rcases becomes with rfl | ⟨_, rfl⟩
  · exact live
  · nofun

/-- The answer to running a single statement, after which something may be left to run. -/
def Answer.andMore : Answer Unit → Answer Bool
  | .value () => .value true
  | .failed failure => .failed failure
  | .unfinished => .unfinished

/-- How a turn ends a script, if it does. -/
def Progress.outcome? : Progress → Option (Answer Unit)
  | .working => none
  | .idle => some (.value ())
  | .failed failure => some (.failed failure)
  | .endless => none

/-- What a host can do with a script between two of its statements. -/
inductive HostAction where
  | step
  | execute
  | suspend (suspended : Bool)
  /-- Time passes. -/
  | wait (duration : Nat)

/-- How often the host lets the script go on in any case: by single steps, and by running
it after ending a suspension. -/
def HostAction.rounds : List HostAction → Nat
  | [] => 0
  | .step :: rest => rounds rest + 1
  | .suspend false :: .execute :: rest => rounds rest + 1
  | _ :: rest => rounds rest

namespace Session

/-- Does what the host wants. Answers whether something may be left to run. -/
def perform (turns : Nat) (session : Session) : HostAction → Answer Bool × Session
  | .step => step turns session
  | .execute =>
      match execute turns session with
      | (.value (), session) => (.value (session.state ≠ .stopped), session)
      | (.failed failure, session) => (.failed failure, session)
      | (.unfinished, session) => (.unfinished, session)
  | .suspend suspended => (.value true, session.suspend suspended)
  | .wait duration => (.value true, { session with now := session.now + duration })

/-- Follows a schedule until nothing is left to run, or to the first error. -/
def drive (turns : Nat) : List HostAction → Session → Answer Bool × Session
  | [], session => (.value true, session)
  | action :: rest, session =>
      match session.perform turns action with
      | (.value true, session) => drive turns rest session
      | (answer, session) => (answer, session)

/-- Whatever turns the session takes, it does not look at the clock. -/
def Timeless (session : Session) : Prop :=
  ∀ turns last, Runs turns session last → last.callsClock = false

/-- The first session is the second one muted. It runs, nobody limits the time, and
nobody waits for what is not there. -/
structure Shadows (quiet loud : Session) : Prop where
  same : quiet = loud.mutedAt quiet
  running : quiet.state = .running
  unlimited : loud.timeLimit = none
  free : Free loud.stack

/-- The first session comes to a turn like this, which leaves the second one muted. -/
def ComesTo (quiet : Session) (progress : Progress) (after : Session) : Prop :=
  ∃ taken last ended, Runs taken quiet last ∧ last.state = .running ∧
    last.advance = (progress, ended) ∧ ended = after.mutedAt ended

/-- What an answer about a session tells about its shadow: turns, at least as many as
`rounds`, lead to where the session is now; or to the turn in which both came to their
end; or the shadow is busy for longer than the host waited. -/
def Matches (quiet : Session) (rounds turns : Nat) : Answer Bool × Session → Prop
  | (.value true, after) => ∃ taken last, rounds ≤ taken ∧ Runs taken quiet last ∧
      last.Shadows after ∧ after.state ≠ .stopped
  | (.value false, after) => quiet.ComesTo .idle after
  | (.failed failure, after) => quiet.ComesTo (.failed failure) after
  | (.unfinished, _) => Lasts turns quiet

/-!
## Turns side by side
-/

theorem Timeless.later {turns : Nat} {session last : Session} (timeless : session.Timeless)
    (runs : Runs turns session last) : last.Timeless :=
  fun more _ further => timeless (turns + more) _ (runs.append further)

theorem Shadows.advance {quiet loud : Session} (shadows : quiet.Shadows loud)
    (timeless : quiet.Timeless) :
    ∃ later, quiet.advance = (loud.advance.1, later) ∧ later.Shadows loud.advance.2 := by
  have silent : loud.callsClock = false := by
    rw [← loud.callsClock_mutedAt quiet, ← shadows.same]
    exact timeless 0 quiet rfl
  obtain ⟨later, state, turn⟩ := loud.advance_mutedAt quiet shadows.unlimited silent
  rw [← shadows.same] at turn
  refine ⟨loud.advance.2.mutedAt later, turn, rfl, state.trans shadows.running, ?_,
    advance_free shadows.free⟩
  rw [loud.advance_settings.timeLimit, shadows.unlimited]

/-- A session comes to rest for good only between two statements of the outermost
context. -/
theorem isSettled_of_idle {session after : Session} (free : Free session.stack)
    (idle : session.advance = (.idle, after)) : session.isSettled = true := by
  cases stack : session.stack with
  | nil => simp only [isSettled, stack]
  | cons top below =>
      have active : top.awaits = false := free top (by rw [stack]; rfl)
      obtain ⟨context, activity⟩ := top
      cases activity with
      | calling | declaring => cases active
      | evaluating continuation =>
          simp only [advance, stack] at idle
          generalize context.evaluation.advance session.heap = answer at idle
          obtain ⟨turn, evaluation, heap⟩ := answer
          cases turn with
          | working => cases idle
          | failed failure => cases idle
          | endless => cases idle
          | finished value =>
              dsimp only at idle
              generalize Context.deliver _ heap continuation value = outcome at idle
              cases outcome <;> cases idle
          | call request scope =>
              have turn := beginCall_turn { session with heap } request scope
                { context with evaluation } continuation below
              dsimp only at idle
              rw [stack, idle] at turn
              cases turn
      | resting =>
          have above : Above below session.stack := stack ▸ .single active
          have turn := advance_above above
          rw [idle] at turn
          cases turn with
          | ended _ _ free =>
              cases below with
              | nil => simp [isSettled, stack, Activation.rests]
              | cons caller rest =>
                  have active : caller.awaits = false := by simpa [Free] using free
                  simp [isSettled, stack, Activation.rests, active]

/-!
## What a host does
-/

theorem ComesTo.behind {quiet middle after : Session} {taken : Nat} {progress : Progress}
    (runs : Runs taken quiet middle) (comes : middle.ComesTo progress after) :
    quiet.ComesTo progress after := by
  obtain ⟨more, last, ended, later, rest⟩ := comes
  exact ⟨taken + more, last, ended, runs.append later, rest⟩

theorem ComesTo.execute {quiet after : Session} {progress : Progress} {outcome : Answer Unit}
    (comes : quiet.ComesTo progress after) (ends : progress.outcome? = some outcome) :
    ∃ bound last, Session.execute bound quiet = (outcome, last) ∧ last.output = after.output ∧
      last.globals = after.globals ∧ last.heap = after.heap.muted := by
  obtain ⟨taken, last, ended, runs, running, turn, same⟩ := comes
  have executed :
      Session.execute (1 + taken) quiet = (outcome, { ended with state := .stopped }) := by
    rw [execute_of_runs 1 runs]
    cases progress with
    | working | endless => cases ends
    | idle | failed =>
        cases ends
        simp only [Session.execute, running, turn, ne_eq, not_true, decide_false, Bool.and_false]
        rfl
  refine ⟨_, _, executed, ?_⟩
  rw [same]
  exact ⟨rfl, rfl, rfl⟩

namespace Matches

variable {quiet middle : Session} {rounds turns : Nat} {answer : Answer Bool × Session}

theorem mono (side : quiet.Matches rounds turns answer) {fewer less : Nat}
    (rounded : fewer ≤ rounds) (waited : less ≤ turns) : quiet.Matches fewer less answer := by
  obtain ⟨answer, after⟩ := answer
  cases answer with
  | value more =>
      cases more with
      | true =>
          obtain ⟨taken, last, enough, rest⟩ := side
          exact ⟨taken, last, rounded.trans enough, rest⟩
      | false => exact side
  | failed failure => exact side
  | unfinished => exact Lasts.fewer side waited

theorem behind {taken : Nat} (runs : Runs taken quiet middle)
    (side : middle.Matches rounds turns answer) :
    quiet.Matches (taken + rounds) (taken + turns) answer := by
  obtain ⟨answer, after⟩ := answer
  cases answer with
  | value more =>
      cases more with
      | true =>
          obtain ⟨more, last, enough, later, rest⟩ := side
          exact ⟨taken + more, last, Nat.add_le_add_left enough taken, runs.append later, rest⟩
      | false => exact ComesTo.behind runs side
  | failed failure => exact ComesTo.behind runs side
  | unfinished => exact runs.andLasts side

end Matches

/-- An action, and then the rest of the schedule. -/
theorem drive_cons {quiet loud : Session} (timeless : quiet.Timeless) {turns rounds more : Nat}
    {action : HostAction} {rest : List HostAction}
    (first : quiet.Matches rounds turns (loud.perform turns action))
    (next : ∀ last after : Session, last.Shadows after → last.Timeless →
      after.state ≠ .stopped → last.Matches more turns (drive turns rest after)) :
    quiet.Matches (more + rounds) turns (drive turns (action :: rest) loud) := by
  unfold drive
  generalize loud.perform turns action = answer at first
  obtain ⟨answer, after⟩ := answer
  cases answer with
  | value more =>
      cases more with
      | true =>
          obtain ⟨taken, last, enough, runs, beside, live⟩ := first
          have later := (next last after beside (timeless.later runs) live).behind runs
          exact later.mono (by omega) (Nat.le_add_left _ _)
      | false => exact first
  | failed | unfinished => exact first

namespace Shadows

variable {quiet loud : Session} (shadows : quiet.Shadows loud)

include shadows

/-- The turns of one statement after its first. -/
theorem finishStatement (timeless : quiet.Timeless) (live : loud.state ≠ .stopped)
    (turns : Nat) :
    quiet.Matches 0 turns ((Session.finishStatement turns loud).1.andMore,
      (Session.finishStatement turns loud).2) := by
  induction turns generalizing quiet loud with
  | zero => exact .inl ⟨quiet, rfl⟩
  | succ turns ih =>
      unfold Session.finishStatement
      by_cases settled : loud.isSettled
      · rw [if_pos settled]
        exact ⟨0, quiet, Nat.zero_le _, rfl, shadows, live⟩
      · rw [if_neg settled]
        obtain ⟨later, turn, beside⟩ := shadows.advance timeless
        have liveAfter := loud.advance_settings.state.live live
        have rested := @isSettled_of_idle loud
        generalize loud.advance = answer at turn beside liveAfter rested
        obtain ⟨progress, after⟩ := answer
        cases progress with
        | idle => exact absurd (rested shadows.free rfl) settled
        | failed failure => exact ⟨0, quiet, later, rfl, shadows.running, turn, beside.same⟩
        | endless => exact .inr ⟨0, quiet, later, rfl, shadows.running, turn⟩
        | working =>
            have one : Runs 1 quiet later := ⟨shadows.running, later, turn, rfl⟩
            have rest := (ih beside (timeless.later one) liveAfter).behind one
            exact rest.mono (Nat.zero_le _) (Nat.le_of_eq (Nat.add_comm _ _))

theorem step (timeless : quiet.Timeless) (live : loud.state ≠ .stopped) (turns : Nat) :
    quiet.Matches 1 turns (loud.perform turns .step) := by
  obtain ⟨later, turn, beside⟩ := shadows.advance timeless
  have liveAfter := loud.advance_settings.state.live live
  simp only [Session.perform, Session.step]
  generalize loud.advance = answer at turn beside liveAfter
  obtain ⟨progress, after⟩ := answer
  cases progress with
  | idle | failed => exact ⟨0, quiet, later, rfl, shadows.running, turn, beside.same⟩
  | endless => exact .inr ⟨0, quiet, later, rfl, shadows.running, turn⟩
  | working =>
      have one : Runs 1 quiet later := ⟨shadows.running, later, turn, rfl⟩
      have rest := (beside.finishStatement (timeless.later one) liveAfter turns).behind one
      dsimp only
      generalize Session.finishStatement turns after = answer at rest ⊢
      obtain ⟨answer, last⟩ := answer
      cases answer <;> exact rest.mono (Nat.le_refl _) (Nat.le_add_left _ _)

/-- A script that is not suspended goes on by one turn at least. -/
theorem execute (timeless : quiet.Timeless) (live : loud.state ≠ .stopped) (turns : Nat) :
    quiet.Matches (if loud.state = .running then 1 else 0) turns
      (loud.perform turns .execute) := by
  induction turns generalizing quiet loud with
  | zero => exact .inl ⟨quiet, rfl⟩
  | succ turns ih =>
      simp only [Session.perform, Session.execute]
      by_cases waits : (loud.isSettled && loud.state ≠ .running) = true
      · have waiting : loud.state ≠ .running := by simpa using (Bool.and_eq_true_iff.mp waits).2
        rw [if_pos waits, if_neg waiting]
        simp only [live, ne_eq, not_false_eq_true, decide_true]
        exact ⟨0, quiet, Nat.le_refl _, rfl, shadows, live⟩
      · rw [if_neg waits]
        obtain ⟨later, turn, beside⟩ := shadows.advance timeless
        have liveAfter := loud.advance_settings.state.live live
        generalize loud.advance = answer at turn beside liveAfter
        obtain ⟨progress, after⟩ := answer
        cases progress with
        | idle => exact ⟨0, quiet, later, rfl, shadows.running, turn, beside.same⟩
        | failed failure => exact ⟨0, quiet, later, rfl, shadows.running, turn, beside.same⟩
        | endless => exact .inr ⟨0, quiet, later, rfl, shadows.running, turn⟩
        | working =>
            have one : Runs 1 quiet later := ⟨shadows.running, later, turn, rfl⟩
            have rest := (ih beside (timeless.later one) liveAfter).behind one
            refine rest.mono ?_ (Nat.le_of_eq (Nat.add_comm _ _))
            split <;> omega

theorem suspend (suspended : Bool) : quiet.Shadows (loud.suspend suspended) := by
  obtain ⟨same, running, unlimited, free⟩ := shadows
  unfold Session.suspend
  split <;> exact ⟨same, running, unlimited, free⟩

theorem perform (timeless : quiet.Timeless) (live : loud.state ≠ .stopped) (turns : Nat)
    (action : HostAction) : quiet.Matches 0 turns (loud.perform turns action) := by
  cases action with
  | step => exact (shadows.step timeless live turns).mono (Nat.zero_le _) (Nat.le_refl _)
  | execute => exact (shadows.execute timeless live turns).mono (Nat.zero_le _) (Nat.le_refl _)
  | suspend suspended =>
      refine ⟨0, quiet, Nat.le_refl _, rfl, shadows.suspend suspended, ?_⟩
      unfold Session.suspend
      split
      · nofun
      · nofun
      · exact live
  | wait duration =>
      obtain ⟨same, running, unlimited, free⟩ := shadows
      exact ⟨0, quiet, Nat.le_refl _, rfl, ⟨same, running, unlimited, free⟩, live⟩

theorem drive (timeless : quiet.Timeless) (live : loud.state ≠ .stopped) (turns : Nat)
    (schedule : List HostAction) :
    quiet.Matches (HostAction.rounds schedule) turns (Session.drive turns schedule loud) := by
  induction schedule using HostAction.rounds.induct generalizing quiet loud with
  | case1 => exact ⟨0, quiet, Nat.le_refl _, rfl, shadows, live⟩
  | case2 rest ih =>
      exact drive_cons timeless (shadows.step timeless live turns)
        fun _ _ beside timeless live => ih beside timeless live
  | case3 rest ih =>
      have resumed := shadows.suspend false
      have running : (loud.suspend false).state = .running := by
        cases state : loud.state <;> simp_all [Session.suspend]
      have first := resumed.execute timeless (by simp [running]) turns
      rw [if_pos running] at first
      change quiet.Matches (HostAction.rounds rest + 1) turns
        (Session.drive turns (.execute :: rest) (loud.suspend false))
      exact drive_cons timeless first fun _ _ beside timeless live => ih beside timeless live
  | case4 action rest other unresumed ih =>
      rw [HostAction.rounds.eq_4 action rest other unresumed]
      exact drive_cons timeless (shadows.perform timeless live turns action)
        fun _ _ beside timeless live => ih beside timeless live

end Shadows

/-- The session with every function muted. -/
def muted (session : Session) : Session :=
  { session with heap := session.heap.muted }

theorem installNative_muted (heap : Heap) (target : RecordRef) (name : String)
    (parameters : List String) (action : NativeAction) :
    (heap.installNative target name parameters action).muted =
      heap.muted.installNative target name parameters action.muted := by
  simp [Heap.installNative, Heap.newFunction, Heap.muted, Heap.setMember, Heap.modifyRecord,
    Function.muted]

private theorem installAll_muted (heap : Heap) (target : RecordRef)
    {functions : List (String × List String × NativeAction)}
    (quiet : ∀ function ∈ functions, function.2.2.muted = function.2.2) :
    (heap.installAll target functions).muted = heap.muted.installAll target functions := by
  unfold Heap.installAll
  induction functions generalizing heap with
  | nil => rfl
  | cons function functions ih =>
      obtain ⟨first, later⟩ := List.forall_mem_cons.mp quiet
      rw [List.foldl_cons, List.foldl_cons, ih _ later, installNative_muted, first]

/-- A native function that asks for a suspension is replaced by one that rests. -/
theorem muted_install (session : Session) (name : String) (parameters : List String)
    (action : NativeAction) :
    (session.install name parameters action).muted =
      session.muted.install name parameters action.muted := by
  simp only [muted, install, installNative_muted]

/-- Nothing in the library of the language asks for a suspension. -/
theorem muted_new (timeLimit : Option Nat) :
    (Session.new timeLimit).muted = Session.new timeLimit := by
  have empty : Heap.empty.muted = Heap.empty := by simp [Heap.muted, Heap.empty]
  have opened (heap : Heap) :
      (heap.newRecord .empty).2.muted = (heap.muted.newRecord .empty).2 := rfl
  have functions (heap : Heap) (target : RecordRef) :=
    @installAll_muted heap target libraryFunctions (by decide)
  have methods (heap : Heap) (target : RecordRef) :=
    @installAll_muted heap target libraryMethods (by decide)
  have globals : Heap.empty.newGlobals.2.muted = Heap.empty.newGlobals.2 := by
    simp only [Heap.newGlobals, ← Heap.setMember_muted, functions, methods, opened, empty]
  simp only [muted, Session.new, globals]

theorem releaseAll_muted (stack : List Activation) (heap : Heap) :
    releaseAll stack heap.muted = (releaseAll stack heap).muted := by
  unfold releaseAll
  induction stack generalizing heap with
  | nil => rfl
  | cons top below ih => rw [List.foldl_cons, List.foldl_cons, heap.release_muted, ih]

theorem shadows_of_run {session started reference : Session} {script : Script}
    (unlimited : session.timeLimit = none) (begun : session.run script = .ok started)
    (undisturbed : session.muted.run script = .ok reference) :
    reference.Shadows started ∧ started.state = .running := by
  have released := releaseAll_muted session.stack session.heap
  unfold Session.run at begun undisturbed
  split at begun
  · cases begun
  · next stopped =>
      rw [if_neg (show ¬session.muted.state ≠ .stopped from stopped)] at undisturbed
      cases begun
      cases undisturbed
      refine ⟨⟨?_, rfl, unlimited, ?_⟩, rfl⟩
      · simp only [muted, mutedAt, clear, released]
      · simp [Free, Activation.awaits]

end Session

/-- How a schedule is over, if it is. -/
def Answer.ended? : Answer Bool → Option (Answer Unit)
  | .value true => none
  | .value false => some (.value ())
  | .failed failure => some (.failed failure)
  | .unfinished => none

namespace Session

/-- Whether the session may look at the clock, as far as so many turns can tell. -/
def mayCallClock : Nat → Session → Bool
  | 0, _ => true
  | turns + 1, session =>
      session.callsClock ||
        match session.advance with
        | (.working, next) => mayCallClock turns next
        | _ => false

theorem timeless_of_mayCallClock {turns : Nat} {session : Session}
    (silent : mayCallClock turns session = false) : session.Timeless := by
  intro taken last runs
  induction taken generalizing turns session with
  | zero =>
      obtain rfl := runs
      cases turns with
      | zero => cases silent
      | succ turns => exact (Bool.or_eq_false_iff.mp silent).1
  | succ taken ih =>
      obtain ⟨_, middle, turn, rest⟩ := runs
      cases turns with
      | zero => cases silent
      | succ turns =>
          have later := (Bool.or_eq_false_iff.mp silent).2
          rw [turn] at later
          exact ih later rest

/-- As long as a script does not look at the clock, a schedule of its host that is over
has come to the same end, written the same text and left the same globals as one run
without a break, in which the functions that ask for a suspension do nothing. If that run
comes to an end within `bound` turns, then so does every action of the host, and the
schedule is over after as many rounds. -/
theorem schedules_agree {session started reference : Session} {script : Script}
    (unlimited : session.timeLimit = none) (begun : session.run script = .ok started)
    (undisturbed : session.muted.run script = .ok reference) (timeless : reference.Timeless)
    (schedule : List HostAction) :
    (∀ turns answer after outcome, drive turns schedule started = (answer, after) →
      answer.ended? = some outcome →
        ∃ bound last, execute bound reference = (outcome, last) ∧ last.output = after.output ∧
          last.globals = after.globals ∧ last.heap = after.heap.muted) ∧
      ∀ bound outcome last, execute bound reference = (outcome, last) → outcome ≠ .unfinished →
        ∀ turns, bound ≤ turns → (drive turns schedule started).1 ≠ .unfinished ∧
          (bound ≤ HostAction.rounds schedule →
            (drive turns schedule started).1 ≠ .value true) := by
  obtain ⟨shadows, running⟩ := shadows_of_run unlimited begun undisturbed
  have sides (turns : Nat) :=
    shadows.drive timeless (by simp [running]) turns schedule
  constructor
  · intro turns answer after outcome driven ended
    have side := sides turns
    rw [driven] at side
    cases answer with
    | value more =>
        cases more with
        | true => cases ended
        | false =>
            cases ended
            exact side.execute rfl
    | failed failure =>
        cases ended
        exact side.execute rfl
    | unfinished => cases ended
  · intro bound outcome last executed ended turns enough
    have short (taken : Nat) (le : bound ≤ taken) (after : Session) :
        ¬Runs taken reference after := by
      intro runs
      obtain ⟨middle, within⟩ := runs.fewer le
      have unended := execute_of_runs 0 within
      rw [Nat.zero_add, executed] at unended
      exact ended (congrArg Prod.fst unended)
    have side := sides turns
    generalize drive turns schedule started = answer at side
    obtain ⟨answer, after⟩ := answer
    constructor
    · rintro rfl
      have unended := execute_of_lasts (Lasts.fewer side enough)
      rw [executed] at unended
      exact ended unended
    · rintro most rfl
      obtain ⟨taken, middle, least, runs, _⟩ := side
      exact short taken (most.trans least) middle runs

/-- A script that asks to be suspended in a call, in a record block and twice in one
statement, and fails in the end. -/
theorem schedules_agree_on_failure :
    ∃ script started reference failure after bound last,
      Script.ofSource
          "def f()\npause()\nprint 1\nend\nrecord r\nx = f()\npause()\nend\nf(pause() + pause())\n" =
        .ok script ∧
      ((Session.new none).install "pause" [] .suspend).muted =
        (Session.new none).install "pause" [] .rest ∧
      ((Session.new none).install "pause" [] .suspend).run script = .ok started ∧
      ((Session.new none).install "pause" [] .suspend).muted.run script = .ok reference ∧
      reference.Timeless ∧
      drive 100 [.execute, .wait 7, .suspend false, .suspend true, .step] started =
        (.failed failure, after) ∧
      execute bound reference = (.failed failure, last) ∧ last.output = after.output ∧
      after.output = "1\n" := by
  have passed : ((Script.ofSource
      "def f()\npause()\nprint 1\nend\nrecord r\nx = f()\npause()\nend\nf(pause() + pause())\n"
      ).toOption.any fun script =>
        (((Session.new none).install "pause" [] .suspend).run script).toOption.any fun started =>
          (((Session.new none).install "pause" [] .suspend).muted.run script).toOption.any
            fun reference => !mayCallClock 200 reference &&
              fails (drive 100 [.execute, .wait 7, .suspend false, .suspend true, .step] started)
                fun after => after.output == "1\n") = true := by decide +kernel
  obtain ⟨script, accepted, passed⟩ := ok_of_any passed
  obtain ⟨started, begun, passed⟩ := ok_of_any passed
  obtain ⟨reference, undisturbed, passed⟩ := ok_of_any passed
  rw [Bool.and_eq_true, Bool.not_eq_true'] at passed
  have timeless := timeless_of_mayCallClock passed.1
  obtain ⟨failure, after, ended, printed⟩ := eq_of_fails passed.2
  obtain ⟨bound, last, executed, output, _⟩ :=
    (schedules_agree rfl begun undisturbed timeless _).1 _ _ _ _ ended rfl
  have muted : ((Session.new none).install "pause" [] .suspend).muted =
      (Session.new none).install "pause" [] .rest :=
    ((Session.new none).muted_install _ _ _).trans (by rw [muted_new]; rfl)
  exact ⟨script, started, reference, failure, after, bound, last, accepted, muted, begun,
    undisturbed, timeless, ended, executed, output, eq_of_beq printed⟩

end Session

end ScriptEngine
