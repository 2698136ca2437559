import Mathlib
import ScriptEngine.Proofs.Evaluation.Turn
import ScriptEngine.Proofs.Machine.Executing
import ScriptEngine.Proofs.Machine.Observed
import ScriptEngine.Proofs.Machine.Reached

/-!
# Nested runs leave the stack as it was

A call of a function and the block of a record run in a context above the others.
Contexts between two statements rest on the stack, and those in the middle of one
wait or evaluate on it, so the stack lists both kinds in the order of the calls.
However deep the calls in it go, a nested run changes nothing about the contexts
below: when it is over the stack is what it was, whether it came to a value or to an
error, and so are the contexts at rest and those in the middle of a statement, each kind
taken by itself (`Session.nested_runs_neutral`).
-/

set_option autoImplicit false

namespace ScriptEngine

/-- All that a run inside of another one may do to the state of a session. -/
def SessionState.Becomes (before after : SessionState) : Prop :=
  after = before ∨ before = .running ∧ after = .suspended

theorem SessionState.Becomes.trans {first second third : SessionState}
    (early : first.Becomes second) (late : second.Becomes third) : first.Becomes third := by
  rcases early with rfl | ⟨rfl, rfl⟩
  · exact late
  · rcases late with rfl | ⟨waiting, _⟩
    · exact .inr ⟨rfl, rfl⟩
    · cases waiting

/-- The stack after an error in the innermost context: contexts go up to the first one
that nobody waits for, which rests. -/
def Activation.unwound (top : Activation) : List Activation → List Activation
  | [] => [{ top with activity := .resting }]
  | caller :: below =>
      if caller.awaits then caller.unwound below
      else { top with activity := .resting } :: caller :: below

/-- What becomes of a context that has got what it waited for. -/
inductive Activation.Resumed : Activation → Activation → Prop where
  | called {context : Context} {continuation : Continuation} {scope : Option Value} {span : Span}
      (value : Value) :
      Resumed ⟨context, .calling continuation scope span⟩
        ⟨{ context with evaluation := context.evaluation.pushResult value scope },
          .evaluating continuation⟩
  | declared {context : Context} {name : String} {span : Span} :
      Resumed ⟨context, .declaring name span⟩ ⟨context.proceed, .resting⟩

theorem Activation.Resumed.active {caller resumed : Activation}
    (resumes : caller.Resumed resumed) : resumed.awaits = false := by
  cases resumes <;> rfl

namespace Session

/-- What a turn leaves as the host has set it. -/
structure KeepsSettings (before after : Session) : Prop where
  state : before.state.Becomes after.state
  globals : after.globals = before.globals
  timeLimit : after.timeLimit = before.timeLimit

/-- Nobody in the stack waits for more than what is above it. -/
def Free (stack : List Activation) : Prop :=
  ∀ top ∈ stack.head?, top.awaits = false

/-- The contexts of a nested run: the innermost one, which waits for nobody, and those
that wait for the ones above them. -/
def Above (below stack : List Activation) : Prop :=
  ∃ top waiting, stack = top :: (waiting ++ below) ∧ top.awaits = false ∧
    ∀ caller ∈ waiting, caller.awaits = true

variable {below stack : List Activation}

theorem Above.single {top : Activation} (active : top.awaits = false) :
    Above below (top :: below) :=
  ⟨top, [], rfl, active, List.forall_mem_nil _⟩

theorem Above.free (above : Above below stack) : Free stack := by
  obtain ⟨top, waiting, rfl, active, _⟩ := above
  simpa [Free] using active

theorem Above.length_lt (above : Above below stack) : below.length < stack.length := by
  obtain ⟨top, waiting, rfl, _⟩ := above
  simp only [List.length_cons, List.length_append]
  omega

/-- What a turn of a nested run comes to. -/
inductive TurnAbove (below : List Activation) : Progress × Session → Prop where
  | stays {after : Session} (above : Above below after.stack) : TurnAbove below (.working, after)
  | returned {after : Session} {caller resumed : Activation} {rest : List Activation}
      (waits : below = caller :: rest) (resumes : caller.Resumed resumed)
      (stack : after.stack = resumed :: rest) : TurnAbove below (.working, after)
  | ended {after : Session} {top : Activation} (rests : top.rests = true)
      (stack : after.stack = top :: below) (free : Free below) : TurnAbove below (.idle, after)
  | failed {failure : RuntimeError} {after : Session} {top : Activation}
      {waiting : List Activation} (awaited : ∀ caller ∈ waiting, caller.awaits = true)
      (stack : after.stack = top.unwound (waiting ++ below)) :
      TurnAbove below (.failed failure, after)
  | endless {after : Session} (above : Above below after.stack) :
      TurnAbove below (.endless, after)

/-- What a turn comes to in which `caller` calls a function or opens a block: the new
context stands above it, or it goes on at once, or the turn fails. -/
inductive TurnOf (caller : Activation) (below : List Activation) : Progress × Session → Prop where
  | opens {after : Session} {top : Activation} (active : top.awaits = false)
      (stack : after.stack = top :: caller :: below) : TurnOf caller below (.working, after)
  | resumes {after : Session} {resumed : Activation} (resumes : caller.Resumed resumed)
      (stack : after.stack = resumed :: below) : TurnOf caller below (.working, after)
  | failed {failure : RuntimeError} {after : Session}
      (stack : after.stack = caller.unwound below) : TurnOf caller below (.failed failure, after)

/-!
## Errors
-/

theorem unwind_stack (failure : RuntimeError) (top : Activation) (heap : Heap)
    (below : List Activation) :
    (Session.unwind failure top heap below).2.1 = top.unwound below := by
  induction below generalizing failure top heap with
  | nil => rfl
  | cons caller below ih =>
      obtain ⟨context, activity⟩ := caller
      cases activity with
      | calling continuation scope span => exact ih _ _ _
      | declaring name span => exact ih _ _ _
      | resting => rfl
      | evaluating continuation => rfl

theorem unwound_contexts (top : Activation) (below : List Activation) :
    (top.unwound below).map Activation.context <:+ (top :: below).map Activation.context := by
  induction below generalizing top with
  | nil => exact List.suffix_rfl
  | cons caller below ih =>
      unfold Activation.unwound
      split
      · exact (ih caller).trans (List.suffix_cons _ _)
      · exact List.suffix_rfl

theorem unwound_activity (context : Context) (activity other : Activity)
    (below : List Activation) :
    (⟨context, activity⟩ : Activation).unwound below =
      (⟨context, other⟩ : Activation).unwound below := by
  cases below <;> rfl

theorem unwound_waiting {caller top : Activation} {waiting : List Activation}
    (awaited : ∀ other ∈ waiting, other.awaits = true) (waits : caller.awaits = true)
    (rest : List Activation) :
    top.unwound (waiting ++ caller :: rest) = caller.unwound rest := by
  induction waiting generalizing top with
  | nil => simp [Activation.unwound, waits]
  | cons first waiting ih =>
      obtain ⟨firstWaits, awaited⟩ := List.forall_mem_cons.mp awaited
      simp only [List.cons_append, Activation.unwound, firstWaits, if_true]
      exact ih awaited

theorem unwound_free {top : Activation} {waiting : List Activation}
    (awaited : ∀ other ∈ waiting, other.awaits = true) (free : Free below) :
    ∃ bottom, bottom.rests = true ∧ top.unwound (waiting ++ below) = bottom :: below := by
  induction waiting generalizing top with
  | nil =>
      cases below with
      | nil => exact ⟨_, rfl, rfl⟩
      | cons first rest =>
          have active : first.awaits = false := free first rfl
          exact ⟨{ top with activity := .resting }, rfl, by simp [Activation.unwound, active]⟩
  | cons first waiting ih =>
      obtain ⟨firstWaits, awaited⟩ := List.forall_mem_cons.mp awaited
      simp only [List.cons_append, Activation.unwound, firstWaits, if_true]
      exact ih awaited

/-- An error takes no context at rest away, and puts one more there: the last one that it
goes down to. Those that waited on the way are no longer in the middle of a statement. -/
theorem unwound_lists (top : Activation) (below : List Activation) :
    ∃ bottom, restingIn (top.unwound below) = bottom :: restingIn below ∧
      executingIn (top.unwound below) <:+ executingIn below := by
  induction below generalizing top with
  | nil => exact ⟨top.context, rfl, List.nil_suffix⟩
  | cons caller below ih =>
      unfold Activation.unwound
      split
      · next waits =>
          obtain ⟨bottom, resting, executing⟩ := ih caller
          have executes := Activation.rests_eq_false waits
          rw [restingIn_executes executes, executingIn_executes executes]
          exact ⟨bottom, resting, executing.trans (List.suffix_cons _ _)⟩
      · exact ⟨top.context, restingIn_rests rfl, by rw [executingIn_rests rfl]⟩

private theorem raise_above {session : Session} {failure : RuntimeError} {top : Activation}
    {waiting : List Activation} (awaited : ∀ caller ∈ waiting, caller.awaits = true) :
    TurnAbove below (session.raise failure top (waiting ++ below)) := by
  have stack := unwind_stack failure top session.heap (waiting ++ below)
  unfold Session.raise
  generalize Session.unwind failure top session.heap (waiting ++ below) = answer at stack
  exact .failed awaited stack

private theorem TurnOf.raised (session : Session) (failure : RuntimeError) (context : Context)
    (activity other : Activity) (below : List Activation) :
    TurnOf ⟨context, activity⟩ below (session.raise failure ⟨context, other⟩ below) := by
  have stack := unwind_stack failure ⟨context, other⟩ session.heap below
  rw [unwound_activity context other activity] at stack
  unfold Session.raise
  generalize Session.unwind failure _ session.heap below = answer at stack
  exact .failed stack

/-- The turn is one of a nested run when its caller belongs to one. -/
theorem TurnOf.above {caller : Activation} {waiting : List Activation}
    {turn : Progress × Session} (waits : caller.awaits = true)
    (awaited : ∀ other ∈ waiting, other.awaits = true)
    (begun : TurnOf caller (waiting ++ below) turn) : TurnAbove below turn := by
  cases begun with
  | opens active stack =>
      exact .stays ⟨_, caller :: waiting, stack, active, List.forall_mem_cons.mpr ⟨waits, awaited⟩⟩
  | resumes resumes stack =>
      have active := resumes.active
      exact .stays ⟨_, waiting, stack, active, awaited⟩
  | failed stack => exact .failed awaited stack

/-!
## One turn
-/

theorem declare_turn (session : Session) (name : String) (body : Option StatementRef)
    (span : Span) (context : Context) (heap : Heap) (below : List Activation) :
    TurnOf ⟨context, .declaring name span⟩ below
      (session.settleStatement (.declare name body span context heap) below) :=
  .opens rfl rfl

private theorem settleStatement_above {session : Session} {outcome : StatementOutcome}
    {waiting : List Activation} (awaited : ∀ caller ∈ waiting, caller.awaits = true) :
    TurnAbove below (session.settleStatement outcome (waiting ++ below)) := by
  cases outcome with
  | done context heap | line text context heap => exact .stays ⟨_, waiting, rfl, rfl, awaited⟩
  | evaluate expression continuation context heap =>
      exact .stays ⟨_, waiting, rfl, rfl, awaited⟩
  | declare name body span context heap =>
      exact (declare_turn _ _ _ _ _ _ _).above rfl awaited
  | failed failure context heap => exact raise_above awaited

theorem settleStatement_settings (session : Session) (outcome : StatementOutcome)
    (below : List Activation) :
    session.KeepsSettings (session.settleStatement outcome below).2 := by
  cases outcome <;> exact ⟨.inl rfl, rfl, rfl⟩

theorem beginCall_turn (session : Session) (request : CallRequest) (scope : Option Value)
    (context : Context) (continuation : Continuation) (below : List Activation) :
    TurnOf ⟨context, .calling continuation scope request.span⟩ below
      (session.beginCall request scope context continuation below) := by
  unfold Session.beginCall
  dsimp only
  split
  · exact .raised _ _ _ _ _ _
  · split
    · next action _ =>
        have native := runNative_keeps
          { session with stack := ⟨context, .evaluating continuation⟩ :: below } action
          request.arguments request.receiver
        generalize Session.runNative _ action _ _ = answer at native
        obtain ⟨answer, after⟩ := answer
        cases answer with
        | ok value =>
            dsimp only
            rw [modifyContext_of_stack native.stack]
            exact .resumes (.called value) rfl
        | error cause => exact .raised _ _ _ _ _ _
    · exact .opens rfl rfl

theorem namespaceValues_settings (session : Session) (namespaces : List RecordRef) :
    session.KeepsSettings (session.namespaceValues namespaces).2 := by
  induction namespaces generalizing session with
  | nil => exact ⟨.inl rfl, rfl, rfl⟩
  | cons reference rest ih =>
      simp only [namespaceValues]
      split
      · exact ih session
      · have later := ih (session.newArrayValue
          ((session.heap.record reference).names.map Value.text)).2
        exact ⟨later.state, later.globals, later.timeLimit⟩

theorem runNative_settings (session : Session) (action : NativeAction) (arguments : List Value)
    (receiver : Option Value) :
    session.KeepsSettings (session.runNative action arguments receiver).2 := by
  cases action with
  | length | typeName | text | number | clock | rest => exact ⟨.inl rfl, rfl, rfl⟩
  | range | memberNames | hasMember =>
      simp only [runNative]
      split <;> exact ⟨.inl rfl, rfl, rfl⟩
  | suspend =>
      simp only [runNative, suspend]
      split
      · next running _ => exact ⟨.inr ⟨running, rfl⟩, rfl, rfl⟩
      · next waits => cases waits
      · exact ⟨.inl rfl, rfl, rfl⟩
  | report =>
      have reported := session.namespaceValues_settings session.namespaces
      exact ⟨reported.state, reported.globals, reported.timeLimit⟩

theorem beginCall_settings (session : Session) (request : CallRequest) (scope : Option Value)
    (context : Context) (continuation : Continuation) (below : List Activation) :
    session.KeepsSettings
      (session.beginCall request scope context continuation below).2 := by
  unfold Session.beginCall
  dsimp only
  split
  · exact ⟨.inl rfl, rfl, rfl⟩
  · split
    · next action _ =>
        have native := runNative_settings
          { session with stack := ⟨context, .evaluating continuation⟩ :: below } action
          request.arguments request.receiver
        have kept := runNative_keeps
          { session with stack := ⟨context, .evaluating continuation⟩ :: below } action
          request.arguments request.receiver
        generalize Session.runNative _ action _ _ = answer at native kept
        obtain ⟨answer, after⟩ := answer
        cases answer with
        | ok value =>
            dsimp only
            rw [modifyContext_of_stack kept.stack]
            exact ⟨native.state, native.globals, native.timeLimit⟩
        | error cause => exact ⟨native.state, native.globals, native.timeLimit⟩
    · exact ⟨.inl rfl, rfl, rfl⟩

private theorem complete_above {session : Session} {top : Context} {caller : Activation}
    {rest : List Activation} (waits : caller.awaits = true) :
    TurnAbove (caller :: rest) (session.complete top caller rest) := by
  obtain ⟨context, activity⟩ := caller
  cases activity with
  | resting | evaluating => cases waits
  | calling continuation scope span => exact .returned rfl (.called _) rfl
  | declaring name span =>
      simp only [Session.complete, Context.takeNames]
      split
      · next members left taken => exact .returned rfl .declared rfl
      · next cause left refused =>
          have awaited : ∀ other ∈ ([] : List Activation), other.awaits = true :=
            List.forall_mem_nil _
          have goes (top : Activation) :
              top.unwound ([] ++ ⟨context, .declaring name span⟩ :: rest) =
                (⟨context, .declaring name span⟩ : Activation).unwound rest :=
            unwound_waiting awaited waits rest
          have stack := unwind_stack (.placed cause span) ⟨context, .resting⟩
            (left.release session.heap) rest
          rw [unwound_activity context _ (.declaring name span)] at stack
          exact .failed awaited (stack.trans (goes ⟨context, .resting⟩).symm)

private theorem complete_inside {session : Session} {top : Context} {caller : Activation}
    {waiting : List Activation} (waits : caller.awaits = true)
    (awaited : ∀ other ∈ waiting, other.awaits = true) :
    TurnAbove below (session.complete top caller (waiting ++ below)) := by
  obtain ⟨context, activity⟩ := caller
  cases activity with
  | resting | evaluating => cases waits
  | calling continuation scope span => exact .stays ⟨_, waiting, rfl, rfl, awaited⟩
  | declaring name span =>
      simp only [Session.complete, Context.takeNames]
      split
      · next members left taken => exact .stays ⟨_, waiting, rfl, rfl, awaited⟩
      · exact raise_above awaited

theorem complete_settings (session : Session) (top : Context) (caller : Activation)
    (below : List Activation) : session.KeepsSettings (session.complete top caller below).2 := by
  unfold Session.complete
  dsimp only
  split
  · exact ⟨.inl rfl, rfl, rfl⟩
  · split <;> exact ⟨.inl rfl, rfl, rfl⟩
  · exact ⟨.inl rfl, rfl, rfl⟩

private theorem beginNext_above {session : Session} {top : Activation}
    {waiting : List Activation} (rests : top.rests = true)
    (awaited : ∀ caller ∈ waiting, caller.awaits = true)
    (stack : session.stack = top :: (waiting ++ below)) :
    TurnAbove below (session.beginNext top (waiting ++ below)) := by
  unfold Session.beginNext
  split
  · cases waiting with
    | cons caller waiting =>
        obtain ⟨waits, awaited⟩ := List.forall_mem_cons.mp awaited
        exact complete_inside waits awaited
    | nil =>
        cases below with
        | nil => exact .ended rests stack (by simp [Free])
        | cons caller rest =>
            cases waits : caller.awaits with
            | true => exact complete_above waits
            | false =>
                have idle : session.complete top.context caller rest = (.idle, session) := by
                  obtain ⟨context, activity⟩ := caller
                  cases activity with
                  | resting | evaluating => rfl
                  | calling | declaring => cases waits
                simp only [List.nil_append, idle]
                exact .ended rests stack (by simpa [Free] using waits)
  · split
    · exact .stays ⟨_, waiting, rfl, rfl, awaited⟩
    · exact settleStatement_above awaited

theorem beginNext_settings (session : Session) (top : Activation) (below : List Activation) :
    session.KeepsSettings (session.beginNext top below).2 := by
  unfold Session.beginNext
  split
  · split
    · exact ⟨.inl rfl, rfl, rfl⟩
    · exact complete_settings _ _ _ _
  · split
    · exact ⟨.inl rfl, rfl, rfl⟩
    · exact settleStatement_settings _ _ _

/-- No turn of a nested run touches what is below it, but for the context that gets
what it waited for. -/
theorem advance_above {session : Session} (above : Above below session.stack) :
    TurnAbove below session.advance := by
  obtain ⟨⟨context, activity⟩, waiting, stack, active, awaited⟩ := id above
  simp only [Session.advance, stack]
  cases activity with
  | calling | declaring => cases active
  | resting =>
      dsimp only
      split
      · exact raise_above awaited
      · exact beginNext_above rfl awaited rfl
  | evaluating continuation =>
      generalize context.evaluation.advance session.heap = answer
      obtain ⟨turn, evaluation, heap⟩ := answer
      cases turn with
      | working => exact .stays ⟨_, waiting, rfl, rfl, awaited⟩
      | call request scope => exact (beginCall_turn _ _ _ _ _ _).above rfl awaited
      | finished value => exact settleStatement_above awaited
      | failed failure => exact raise_above awaited
      | endless => exact .endless above

theorem advance_settings (session : Session) : session.KeepsSettings session.advance.2 := by
  unfold Session.advance
  split
  · dsimp only
    split <;> exact ⟨.inl rfl, rfl, rfl⟩
  · next top below _ =>
      split
      · have begun := beginNext_settings { session with now := session.now + 1 } top below
        dsimp only
        split
        · exact ⟨.inl rfl, rfl, rfl⟩
        · exact ⟨begun.state, begun.globals, begun.timeLimit⟩
      · next continuation _ =>
        generalize top.context.evaluation.advance session.heap = answer
        obtain ⟨turn, evaluation, heap⟩ := answer
        cases turn with
        | working => exact ⟨.inl rfl, rfl, rfl⟩
        | call request scope =>
            have called := beginCall_settings { session with heap } request scope
              { top.context with evaluation } continuation below
            exact ⟨called.state, called.globals, called.timeLimit⟩
        | finished value =>
            have settled := settleStatement_settings { session with heap }
              (Context.deliver { top.context with evaluation } heap continuation value) below
            exact ⟨settled.state, settled.globals, settled.timeLimit⟩
        | failed | endless => exact ⟨.inl rfl, rfl, rfl⟩
      · exact ⟨.inl rfl, rfl, rfl⟩
      · exact ⟨.inl rfl, rfl, rfl⟩

/-!
## Whole runs
-/

/-- Takes turns until no more than `depth` contexts are left. -/
def returnTo (depth : Nat) : Nat → Session → Answer Unit × Session
  | 0, session => (.unfinished, session)
  | turns + 1, session =>
      if session.depth ≤ depth then (.value (), session)
      else
        match session.advance with
        | (.working, session) => returnTo depth turns session
        | (.idle, session) => (.value (), session)
        | (.failed failure, session) => (.failed failure, session)
        | (.endless, session) => (.unfinished, session)

/-- Goes on after a turn that may have opened a context above `depth` others, until
that context is gone. -/
def awaitReturn (depth turns : Nat) : Progress × Session → Answer Unit × Session
  | (.working, session) => session.returnTo depth turns
  | (.idle, session) => (.value (), session)
  | (.failed failure, session) => (.failed failure, session)
  | (.endless, session) => (.unfinished, session)

theorem returnTo_state (depth turns : Nat) (session : Session) :
    session.state.Becomes (session.returnTo depth turns).2.state := by
  induction turns generalizing session with
  | zero => exact .inl rfl
  | succ turns ih =>
      have turn := session.advance_settings.state
      unfold returnTo
      split
      · exact .inl rfl
      · generalize session.advance = answer at turn
        obtain ⟨progress, after⟩ := answer
        cases progress with
        | working => exact turn.trans (ih after)
        | idle | failed | endless => exact turn

theorem runToEnd_state (turns : Nat) (session : Session) :
    session.state.Becomes (session.runToEnd turns).2.state := by
  induction turns generalizing session with
  | zero => exact .inl rfl
  | succ turns ih =>
      have turn := session.advance_settings.state
      unfold runToEnd
      generalize session.advance = answer at turn
      obtain ⟨progress, after⟩ := answer
      cases progress with
      | working => exact turn.trans (ih after)
      | idle | failed | endless => exact turn

/-- What a nested run leaves to the context that waits for it: this context goes on
above the others, or goes down with the error as with one of its own. -/
def LeftTo (caller : Activation) (below : List Activation) :
    Answer Unit → List Activation → Prop
  | .value (), stack => ∃ resumed, caller.Resumed resumed ∧ stack = resumed :: below
  | .failed _, stack =>
      stack = caller.unwound below ∧
        stack.map Activation.context <:+ (caller :: below).map Activation.context
  | .unfinished, _ => True

private theorem LeftTo.unwound {caller : Activation} {stack : List Activation}
    {failure : RuntimeError} (stands : stack = caller.unwound below) :
    LeftTo caller below (.failed failure) stack :=
  ⟨stands, by rw [stands]; exact unwound_contexts caller below⟩

theorem returnTo_back {caller : Activation} {stack : List Activation} {turns : Nat}
    {session after : Session} {answer : Answer Unit}
    (back : session.stack = caller :: stack)
    (ran : session.returnTo (stack.length + 1) turns = (answer, after)) :
    answer = .unfinished ∨ answer = .value () ∧ after.stack = caller :: stack := by
  cases turns with
  | zero =>
      cases ran
      exact .inl rfl
  | succ turns =>
      have reached : session.depth ≤ stack.length + 1 := by simp [depth, back]
      simp only [returnTo, if_pos reached] at ran
      cases ran
      exact .inr ⟨rfl, back⟩

theorem returnTo_above {caller : Activation} {rest : List Activation}
    (waits : caller.awaits = true) {turns : Nat} {session after : Session}
    {answer : Answer Unit} (above : Above (caller :: rest) session.stack)
    (ran : session.returnTo (rest.length + 1) turns = (answer, after)) :
    LeftTo caller rest answer after.stack := by
  induction turns generalizing session with
  | zero =>
      cases ran
      trivial
  | succ turns ih =>
      have deeper : ¬session.depth ≤ rest.length + 1 := Nat.not_le_of_lt above.length_lt
      have turn := advance_above above
      unfold returnTo at ran
      rw [if_neg deeper] at ran
      generalize session.advance = next at turn ran
      cases turn with
      | stays above => exact ih above ran
      | returned same resumes stack =>
          obtain ⟨rfl, rfl⟩ := List.cons.inj same
          rcases returnTo_back stack ran with rfl | ⟨rfl, stack⟩
          · trivial
          · exact ⟨_, resumes, stack⟩
      | ended _ stack free =>
          have active := free caller rfl
          rw [waits] at active
          cases active
      | failed awaited stack =>
          cases ran
          rw [unwound_waiting awaited waits] at stack
          exact .unwound stack
      | endless =>
          cases ran
          trivial

/-- A nested run that nobody waits for ends with its context on top of the others. -/
theorem runToEnd_above (free : Free below) {turns : Nat} {session after : Session}
    {answer : Answer Unit} (above : Above below session.stack)
    (ran : session.runToEnd turns = (answer, after)) (returned : answer ≠ .unfinished) :
    ∃ top, top.rests = true ∧ after.stack = top :: below := by
  induction turns generalizing session with
  | zero =>
      cases ran
      exact (returned rfl).elim
  | succ turns ih =>
      have turn := advance_above above
      unfold runToEnd at ran
      generalize session.advance = next at turn ran
      cases turn with
      | stays above => exact ih above ran
      | @returned after caller resumed rest same resumes stack =>
          have active := free caller (by rw [same]; rfl)
          cases resumes <;> cases active
      | ended rests stack _ =>
          cases ran
          exact ⟨_, rests, stack⟩
      | failed awaited stack =>
          cases ran
          obtain ⟨bottom, rests, unwound⟩ := unwound_free awaited free
          exact ⟨bottom, rests, stack.trans unwound⟩
      | endless =>
          cases ran
          exact (returned rfl).elim

/-!
## Sessions in which nested runs begin
-/

/-- The session comes about from a new one, in turns and by what a host does in between. -/
inductive Visited : Session → Prop where
  | new (timeLimit : Option Nat) : Visited (Session.new timeLimit)
  | advance {session : Session} (visited : session.Visited) : session.advance.2.Visited
  | run {session after : Session} {script : Script} (visited : session.Visited)
      (started : session.run script = .ok after) : after.Visited
  | install {session : Session} (visited : session.Visited) (name : String)
      (parameters : List String) (action : NativeAction) :
      (session.install name parameters action).Visited
  | call {session after : Session} {turns : Nat} {function : FunctionRef}
      {arguments : List Value} {receiver : Option Value} {answer : Answer Value}
      (visited : session.Visited)
      (called : session.call turns function arguments receiver = (answer, after))
      (returned : answer ≠ .unfinished) : after.Visited
  | clear {session : Session} (visited : session.Visited) : session.clear.Visited
  /-- A jump, or a reset, of the innermost context. -/
  | modify {session : Session} (visited : session.Visited) (change : Context → Context) :
      (session.modifyContext change).Visited
  /-- Time passes, a script is suspended or goes on, a native function is run. -/
  | other {session after : Session} (visited : session.Visited)
      (kept : session.KeepsContexts after) : after.Visited

theorem unwound_active (top : Activation) (below : List Activation) :
    Free (top.unwound below) := by
  induction below generalizing top with
  | nil => simp [Free, Activation.unwound, Activation.awaits]
  | cons caller below ih =>
      unfold Activation.unwound
      split
      · exact ih caller
      · simp [Free, Activation.awaits]

theorem advance_free {session : Session} (free : Free session.stack) :
    Free session.advance.2.stack := by
  cases stack : session.stack with
  | nil =>
      have idle : session.advance.2.stack = session.stack := by
        simp only [Session.advance, stack]
        split <;> rfl
      rw [idle]
      exact free
  | cons top below =>
      have active : top.awaits = false := free top (by rw [stack]; rfl)
      have turn := advance_above (stack ▸ Above.single active)
      generalize session.advance = answer at turn
      cases turn with
      | stays above | endless above => exact above.free
      | returned _ resumes same =>
          cases resumes <;> simp [Free, same, Activation.awaits]
      | ended rests same _ => simpa [Free, same] using Activation.awaits_eq_false rests
      | failed _ same =>
          rw [same]
          exact unwound_active _ _

theorem runToEnd_free (turns : Nat) {session : Session} (free : Free session.stack) :
    Free (session.runToEnd turns).2.stack := by
  induction turns generalizing session with
  | zero => exact free
  | succ turns ih =>
      have turn := advance_free free
      unfold runToEnd
      generalize session.advance = answer at turn
      obtain ⟨progress, after⟩ := answer
      cases progress with
      | working => exact ih turn
      | idle | failed | endless => exact turn

theorem modifyContext_free {session : Session} (change : Context → Context)
    (free : Free session.stack) : Free (session.modifyContext change).stack := by
  unfold modifyContext
  split
  · exact free
  · next top below stack =>
      have active : top.awaits = false := free top (by rw [stack]; rfl)
      simpa [Free, Activation.awaits] using active

/-!
## Calls and record blocks
-/

/-- The context of a nested run that nobody waits for is on top when the run is over,
and is taken off again. -/
theorem runContext_neutral {session after : Session} (free : Free session.stack) {turns : Nat}
    {context : Context} {answer : Answer Value}
    (ran : session.runContext turns context = (answer, after))
    (returned : answer ≠ .unfinished) :
    after.stack = session.stack ∧ session.state.Becomes after.state := by
  simp only [runContext] at ran
  have above : Above session.stack
      ({ session with startedAt := some session.now }.push context).stack := .single rfl
  have becomes := runToEnd_state turns
    ({ session with startedAt := some session.now }.push context)
  generalize ended : runToEnd turns _ = outcome at ran becomes
  obtain ⟨outcome, left⟩ := outcome
  have neutral := runToEnd_above free above ended
  cases outcome with
  | unfinished =>
      cases ran
      exact (returned rfl).elim
  | value | failed failure =>
      obtain ⟨top, _, stack⟩ := neutral (by simp)
      simp only [pop, stack] at ran
      cases ran
      exact ⟨rfl, becomes⟩

/-- When a host has called a function nothing is left of the call. -/
theorem call_neutral {session after : Session} (free : Free session.stack) {turns : Nat}
    {function : FunctionRef} {arguments : List Value} {receiver : Option Value}
    {answer : Answer Value}
    (called : session.call turns function arguments receiver = (answer, after))
    (returned : answer ≠ .unfinished) :
    after.stack = session.stack ∧ session.state.Becomes after.state := by
  unfold Session.call at called
  dsimp only at called
  split at called
  · cases called
    exact ⟨rfl, .inl rfl⟩
  · split at called
    · next action _ =>
        have kept := session.runNative_keeps action arguments receiver
        have state := (session.runNative_settings action arguments receiver).state
        generalize session.runNative action arguments receiver = native at kept state called
        obtain ⟨native, ran⟩ := native
        cases native <;>
          · cases called
            exact ⟨kept.stack, state⟩
    · next script entry _ =>
        obtain ⟨locals, bound, opened, _⟩ := session.callContext_keeps script entry
          (session.heap.function function).parameters (session.heap.function function).globals
          arguments receiver
        simp only [opened] at called
        exact @runContext_neutral { session with heap := bound } after free turns _ answer called
          returned

theorem Visited.free {session : Session} (visited : session.Visited) : Free session.stack := by
  induction visited with
  | new timeLimit => simp [Free, Session.new]
  | advance _ ih => exact advance_free ih
  | run _ started _ =>
      rw [(run_ok started).1]
      simp [Free, Activation.awaits]
  | install _ name parameters action ih => exact ih
  | call _ called returned ih =>
      rw [(call_neutral ih called returned).1]
      exact ih
  | clear _ _ => simp [Free, Session.clear]
  | modify _ change ih => exact modifyContext_free change ih
  | other _ kept ih =>
      rw [kept.stack]
      exact ih

theorem awaitReturn_state (session : Session) (depth turns : Nat) :
    session.state.Becomes (awaitReturn depth turns session.advance).2.state := by
  have began := session.advance_settings.state
  generalize session.advance = turn at began
  obtain ⟨progress, begun⟩ := turn
  cases progress with
  | working => exact began.trans (begun.returnTo_state depth turns)
  | idle | failed | endless => exact began

theorem TurnOf.leaves {caller top : Activation} {turns : Nat} {session after : Session}
    {answer : Answer Unit} (waits : caller.awaits = true)
    (begun : TurnOf caller below session.advance) (stack : session.stack = top :: below)
    (ran : awaitReturn session.depth turns session.advance = (answer, after)) :
    LeftTo caller below answer after.stack ∧ session.state.Becomes after.state := by
  have becomes := session.awaitReturn_state session.depth turns
  rw [ran] at becomes
  refine ⟨?_, becomes⟩
  have same : session.depth = below.length + 1 := by simp [depth, stack]
  rw [same] at ran
  generalize session.advance = turn at begun ran
  cases begun with
  | opens active stack => exact returnTo_above waits (stack ▸ Above.single active) ran
  | resumes resumes stack =>
      rcases returnTo_back stack ran with rfl | ⟨rfl, stack⟩
      · trivial
      · exact ⟨_, resumes, stack⟩
  | failed stack =>
      cases ran
      exact .unwound stack

/-- The lists after a nested run that a context in the middle of a statement has begun. If
it comes to a value they are what they were; after an error the context that has gone down
last is at rest above those that were. -/
theorem LeftTo.lists_called {context : Context} {evaluation : Evaluation}
    {continuation : Continuation} {scope : Option Value} {span : Span} {session after : Session}
    {answer : Answer Unit} (chain : evaluation.chain = context.evaluation.chain)
    (stack : session.stack = ⟨context, .evaluating continuation⟩ :: below)
    (left : LeftTo ⟨{ context with evaluation }, .calling continuation scope span⟩ below answer
      after.stack) :
    (answer = .value () → after.resting = session.resting ∧
      after.executing = session.executing ∧ after.depth = session.depth) ∧
    ∀ failure, answer = .failed failure → ∃ bottom, after.resting = bottom :: session.resting ∧
      after.executing <:+ session.executing := by
  have resting : session.resting = restingIn below := by
    rw [Session.resting, stack, restingIn_executes rfl]
  have executing : session.executing = context.visible :: executingIn below := by
    rw [Session.executing, stack, executingIn_executes rfl]
  constructor
  · rintro rfl
    obtain ⟨_, ⟨value⟩, goesOn⟩ := left
    refine ⟨?_, ?_, by simp [depth, stack, goesOn]⟩
    · rw [resting, Session.resting, goesOn, restingIn_executes rfl]
    · rw [executing, Session.executing, goesOn, executingIn_executes rfl]
      exact congrArg (fun chain : ScopeChain => chain.toList :: executingIn below) chain
  · rintro failure rfl
    obtain ⟨unwound, _⟩ := left
    obtain ⟨bottom, rests, executes⟩ := unwound_lists
      ⟨{ context with evaluation }, .calling continuation scope span⟩ below
    rw [resting, executing, Session.resting, Session.executing, unwound]
    exact ⟨bottom, rests, executes.trans (List.suffix_cons _ _)⟩

/-- The lists after the block of a record. The context that has opened it, which was at rest
before its statement and is so after it, stays above the others at rest. -/
theorem LeftTo.lists_declared {context : Context} {name : String} {span : Span}
    {session after : Session} {answer : Answer Unit}
    (stack : session.stack = ⟨context, .resting⟩ :: below)
    (left : LeftTo ⟨context, .declaring name span⟩ below answer after.stack) :
    (answer = .value () → after.resting = context.proceed :: session.resting.tail ∧
      after.executing = session.executing ∧ after.depth = session.depth) ∧
    ∀ failure, answer = .failed failure →
      ∃ bottom, after.resting = bottom :: session.resting.tail ∧
        after.executing <:+ session.executing := by
  have resting : session.resting.tail = restingIn below := by
    rw [Session.resting, stack, restingIn_rests rfl]
    rfl
  have executing : session.executing = executingIn below := by
    rw [Session.executing, stack, executingIn_rests rfl]
  constructor
  · rintro rfl
    obtain ⟨_, ⟨⟩, goesOn⟩ := left
    refine ⟨?_, ?_, by simp [depth, stack, goesOn]⟩
    · rw [resting, Session.resting, goesOn, restingIn_rests rfl]
    · rw [executing, Session.executing, goesOn, executingIn_rests rfl]
  · rintro failure rfl
    obtain ⟨unwound, _⟩ := left
    rw [resting, executing, Session.resting, Session.executing, unwound]
    exact unwound_lists ⟨context, .declaring name span⟩ below

/-- The turn in which the innermost context calls a function. -/
theorem advance_calls {session : Session} {context : Context} {continuation : Continuation}
    {request : CallRequest} {scope : Option Value} {evaluation : Evaluation} {heap : Heap}
    (stack : session.stack = ⟨context, .evaluating continuation⟩ :: below)
    (called : context.evaluation.advance session.heap = (.call request scope, evaluation, heap)) :
    TurnOf ⟨{ context with evaluation }, .calling continuation scope request.span⟩ below
      session.advance := by
  simp only [Session.advance, stack, called]
  exact beginCall_turn _ _ _ _ _ _

/-- The turn in which the innermost context opens the block of a record. -/
theorem advance_declares {session : Session} {context : Context} {this : StatementRef}
    {name : String} {body : Option StatementRef} {span : Span}
    (stack : session.stack = ⟨context, .resting⟩ :: below) (current : context.current = some this)
    (found : context.script.statement? this = some (.record name body span)) :
    TurnOf ⟨context, .declaring name span⟩ below session.advance := by
  simp only [Session.advance, stack]
  split
  · exact .raised _ _ _ _ _ _
  · simp only [beginNext, current, found]
    exact declare_turn _ _ _ _ _ _ _

/-- A nested run leaves the stack as it was, in every session that a host can reach.
A function that the host calls, and a context that it runs above the others, leave
nothing behind but, for the latter, the ended context itself. A context whose statement
calls a function or opens the block of a record goes on above the same contexts as
before with what it waited for, or the error takes down the very contexts that an error
of its own would take down. So it is with the contexts at rest and those in the middle of
a statement, each kind taken by itself, and with the depth. When a context that a host runs
is over it is the first of those at rest, whatever it came to. At most the state becomes
suspended. -/
theorem nested_runs_neutral {session : Session} (visited : session.Visited) :
    (∀ turns function arguments receiver answer after,
      session.call turns function arguments receiver = (answer, after) → answer ≠ .unfinished →
        after.stack = session.stack ∧ after.resting = session.resting ∧
          after.executing = session.executing ∧ after.depth = session.depth ∧
          session.state.Becomes after.state) ∧
    (∀ turns context answer after,
      (session.push context).runToEnd turns = (answer, after) → answer ≠ .unfinished →
        (∃ top, after.stack = top :: session.stack ∧
          after.resting = top.context :: session.resting) ∧
          after.executing = session.executing ∧ after.pop.2.resting = session.resting ∧
          after.pop.2.executing = session.executing ∧ after.pop.2.depth = session.depth ∧
          session.state.Becomes after.state) ∧
    (∀ turns context continuation below request scope evaluation heap answer after,
      session.stack = ⟨context, .evaluating continuation⟩ :: below →
        context.evaluation.advance session.heap = (.call request scope, evaluation, heap) →
        awaitReturn session.depth turns session.advance = (answer, after) →
          LeftTo ⟨{ context with evaluation }, .calling continuation scope request.span⟩ below
              answer after.stack ∧
            (answer = .value () → after.resting = session.resting ∧
              after.executing = session.executing ∧ after.depth = session.depth) ∧
            (∀ failure, answer = .failed failure →
              ∃ bottom, after.resting = bottom :: session.resting ∧
                after.executing <:+ session.executing) ∧
            session.state.Becomes after.state) ∧
    ∀ turns context below this name body span answer after,
      session.stack = ⟨context, .resting⟩ :: below → context.current = some this →
        context.script.statement? this = some (.record name body span) →
        awaitReturn session.depth turns session.advance = (answer, after) →
          LeftTo ⟨context, .declaring name span⟩ below answer after.stack ∧
            (answer = .value () → after.resting = context.proceed :: session.resting.tail ∧
              after.executing = session.executing ∧ after.depth = session.depth) ∧
            (∀ failure, answer = .failed failure →
              ∃ bottom, after.resting = bottom :: session.resting.tail ∧
                after.executing <:+ session.executing) ∧
            session.state.Becomes after.state := by
  refine ⟨?_, ?_, ?_, ?_⟩
  · intro turns function arguments receiver answer after called returned
    obtain ⟨stack, state⟩ := call_neutral visited.free called returned
    exact ⟨stack, congrArg restingIn stack, congrArg executingIn stack,
      congrArg List.length stack, state⟩
  · intro turns context answer after ran returned
    have above : Above session.stack (session.push context).stack := .single rfl
    have becomes := (session.push context).runToEnd_state turns
    rw [ran] at becomes
    obtain ⟨top, rests, stack⟩ := runToEnd_above visited.free above ran returned
    have left : after.pop.2.stack = session.stack := by simp [pop, stack]
    have resting : after.resting = top.context :: session.resting := by
      rw [Session.resting, stack, restingIn_rests rests]
      rfl
    have executing : after.executing = session.executing := by
      rw [Session.executing, stack, executingIn_rests rests]
      rfl
    exact ⟨⟨top, stack, resting⟩, executing, congrArg restingIn left, congrArg executingIn left,
      congrArg List.length left, becomes⟩
  · intro turns context continuation below request scope evaluation heap answer after stack
      called ran
    obtain ⟨left, becomes⟩ := (advance_calls stack called).leaves rfl stack ran
    have kept := (context.evaluation.advance_keeps session.heap).1.chain
    rw [called] at kept
    obtain ⟨values, failures⟩ := left.lists_called kept stack
    exact ⟨left, values, failures, becomes⟩
  · intro turns context below this name body span answer after stack current found ran
    obtain ⟨left, becomes⟩ := (advance_declares stack current found).leaves rfl stack ran
    obtain ⟨values, failures⟩ := left.lists_declared stack
    exact ⟨left, values, failures, becomes⟩

/-- The first statement of this script defines `f`, which a host may then call, and the
next one opens the block of a record that calls `f` in its turn. -/
theorem nested_runs_neutral_in_record :
    ∃ session : Session, session.Visited ∧
      (∃ after, session.call 30 ⟨8⟩ [.text "a"] none = (.value (.text "a"), after) ∧
        after.stack = session.stack ∧ after.resting = session.resting ∧
          after.executing = session.executing ∧ after.depth = session.depth ∧
          session.state.Becomes after.state) ∧
      ∃ context below this name body span after,
        session.stack = ⟨context, .resting⟩ :: below ∧ context.current = some this ∧
          context.script.statement? this = some (.record name body span) ∧
          awaitReturn session.depth 30 session.advance = (.value (), after) ∧
          LeftTo ⟨context, .declaring name span⟩ below (.value ()) after.stack ∧
            after.resting = context.proceed :: session.resting.tail ∧
            after.executing = session.executing ∧ after.depth = session.depth ∧
            session.state.Becomes after.state := by
  have passed : ((Script.ofSource
      "def f(x)\nreturn x\nend\nrecord r\na = f(\"b\")\nend\n").toOption.any
      fun script => ((Session.new none).run script).toOption.any fun started =>
        let session := started.advance.2
        returns (session.call 30 ⟨8⟩ [.text "a"] none) (fun value _ => value.isText "a") &&
        session.opensRecord "r" &&
        returns (awaitReturn session.depth 30 session.advance) fun _ _ => true) = true := by
    cbv
  obtain ⟨script, started, accepted, begun, passed⟩ := eq_of_runs passed
  simp only [Bool.and_eq_true] at passed
  obtain ⟨⟨called, opens⟩, closed⟩ := passed
  have visited : started.advance.2.Visited := .advance (.run (.new none) begun)
  obtain ⟨calls, _, _, records⟩ := nested_runs_neutral visited
  obtain ⟨value, returned, call, isText⟩ := eq_of_returns called
  obtain rfl := Value.eq_of_isText isText
  obtain ⟨context, below, this, body, span, stack, current, found⟩ := eq_of_opensRecord opens
  obtain ⟨_, after, ran, _⟩ := eq_of_returns closed
  obtain ⟨left, values, _, becomes⟩ := records _ _ _ _ _ _ _ _ _ stack current found ran
  obtain ⟨resting, executing, depth⟩ := values rfl
  exact ⟨_, visited, ⟨returned, call, calls _ _ _ _ _ _ call (by simp)⟩, context, below, this, "r",
    body, span, after, stack, current, found, ran, left, resting, executing, depth, becomes⟩

end Session

end ScriptEngine
