import ScriptEngine.Proofs.Control.Cursors
import ScriptEngine.Proofs.Machine.History

/-!
# What a turn does to cursors

Whatever a turn does, a cursor stays as it is unless the turn tests the loop that the cursor
belongs to, or a jump of the same context leaves the loop, or the turn fails
(`Session.advance_cursors`).
-/

set_option autoImplicit false

namespace ScriptEngine

/-- What a statement came to: all cursors are where they were. If it failed, then some may be
gone, but there are no others. -/
def StatementOutcome.StayCursors (frames : List Frame) : StatementOutcome → Prop
  | .done context _ => Frame.CursorsStay frames context.frames
  | .line _ context _ => Frame.CursorsStay frames context.frames
  | .evaluate _ _ context _ => Frame.CursorsStay frames context.frames
  | .declare _ _ _ context _ => Frame.CursorsStay frames context.frames
  | .failed _ context _ => Frame.CursorsStay context.frames frames

/-- The cursor of the loop that the value is handed to, if it is handed to one. -/
def Continuation.starts (continuation : Continuation) (value : Value) : Option Iteration :=
  match continuation with
  | .forLoop .. => (Iteration.start value).toOption
  | _ => none

/-- The statement leaves loops that it is inside of. -/
def Statement.Jumps : Statement → Prop
  | .breakLoops _ _ => True
  | .returnValue none => True
  | _ => False

/-!
## Statements
-/

namespace Context

variable {context : Context}

theorem frames_setIteration {top : Frame} {rest : List Frame} (frames : context.frames = top :: rest)
    (iteration : Option Iteration) :
    (context.setIteration iteration).frames = { top with iteration } :: rest := by
  simp only [setIteration, modifyFrame, frames]

theorem iteration_setIteration {this : StatementRef} (current : context.current = some this)
    (iteration : Option Iteration) : (context.setIteration iteration).iteration = iteration := by
  cases frames : context.frames with
  | nil => simp [Context.current, frames] at current
  | cons top rest =>
      rw [Context.iteration, frames_setIteration frames]
      rfl

variable (nested : Frame.Nested context.script context.frames) {this : StatementRef}
  (current : context.current = some this)

include nested current

private theorem stay_tryBranches {heap : Heap}
    {branches rest : List (ExpressionRef × Option StatementRef)}
    {otherwise : Option (Option StatementRef)}
    (found : context.script.statement? this = some (.branch branches otherwise))
    (idle : context.iteration = none) :
    (context.tryBranches heap rest otherwise (context.script.next this)).StayCursors
      context.frames := by
  cases rest with
  | cons branch rest => exact .refl _
  | nil =>
      cases otherwise with
      | none => exact stay_proceed nested idle
      | some body => exact stay_enter nested current found ⟨rfl, rfl, rfl⟩

/-- A statement that is begun leaves all cursors in place, if it is no jump, and no loop that
has one already. -/
theorem stay_beginStatement (heap : Heap) {statement : Statement}
    (found : context.script.statement? this = some statement) (idle : context.iteration = none)
    (stays : ¬statement.Jumps) :
    (context.beginStatement heap this statement).StayCursors context.frames := by
  have proceeded := stay_proceed nested idle
  cases statement with
  | expression | whileLoop | record => exact .refl _
  | print values => cases values with
    | nil => exact proceeded
    | cons first rest => exact .refl _
  | assign target => cases target <;> exact .refl _
  | branch branches otherwise => exact stay_tryBranches nested current found idle
  | forLoop item iterable body span =>
      simp only [beginStatement, idle]
      exact .refl _
  | breakLoops => exact (stays trivial).elim
  | continueLoop span =>
      have old := (nested_nextLoopPass nested).2.stay
      simp only [beginStatement]
      generalize continued : context.nextLoopPass = answer at old
      obtain ⟨answer, after⟩ := answer
      cases answer with
      | ok => exact stay_nextLoopPass nested idle continued
      | error failure => exact old
  | returnValue value => cases value with
    | none => exact (stays trivial).elim
    | some node => exact .refl _
  | pass | define => exact proceeded
  | delete name span =>
      simp only [beginStatement]
      split
      · exact proceeded
      · exact .refl _

/-- So does a statement that gets a value, if it is no loop over it and does not return it. -/
theorem stay_deliver (heap : Heap) {statement : Statement}
    (found : context.script.statement? this = some statement) (idle : context.iteration = none)
    {continuation : Continuation} (fits : continuation.Fits context.script this statement)
    (loops : ∀ loop item body span, continuation ≠ .forLoop loop item body span)
    (returns : continuation ≠ .returnValue) (value : Value) :
    (context.deliver heap continuation value).StayCursors context.frames := by
  have proceeded := stay_proceed nested idle
  have same := Frame.CursorsStay.refl context.frames
  cases continuation with
  | discard => exact proceeded
  | print line rest => cases rest with
    | nil => exact proceeded
    | cons next rest => exact same
  | assignName | assignMember =>
      simp only [deliver]
      split
      · exact proceeded
      · exact same
  | assignMemberOf =>
      simp only [deliver]
      split <;> exact same
  | assignElementOf | assignElementAt => exact same
  | assignElement =>
      simp only [deliver]
      split
      · split
        · exact proceeded
        · exact same
      · exact same
  | branch body rest otherwise following =>
      obtain ⟨branches, rfl, _, _, rfl⟩ := fits
      simp only [deliver]
      split
      · exact stay_enter nested current found ⟨rfl, rfl, rfl⟩
      · exact stay_tryBranches nested current found idle
  | whileLoop loop body =>
      obtain ⟨rfl, condition, rfl⟩ := fits
      simp only [deliver]
      split
      · exact stay_enter nested current found ⟨rfl, rfl, rfl⟩
      · exact proceeded
  | forLoop => exact (loops _ _ _ _ rfl).elim
  | returnValue => exact (returns rfl).elim

/-- A loop is tested for its next pass: its own cursor goes on by one item, or it is gone if
there is none, and all others stay. -/
theorem nextPass_cursors (linked : context.script.Linked) (heap : Heap) {item : String}
    {iterable : ExpressionRef} {body : Option StatementRef} {span : Span}
    (found : context.script.statement? this = some (.forLoop item iterable body span))
    (cursor : Iteration) :
    ∃ after grown,
      (context.setIteration (some cursor)).nextPass heap this item body = .done after grown ∧
      (∀ level held, level ≠ context.frames.length - 1 →
        Frame.cursorAt context.frames level = some held →
        Frame.cursorAt after.frames level = some held) ∧
      Frame.cursorAt after.frames (context.frames.length - 1) =
        (cursor.next heap).map Prod.snd := by
  cases frames : context.frames with
  | nil => simp [Context.current, frames] at current
  | cons top rest =>
      have others (changed : Option Iteration) {after : List Frame}
          (stay : Frame.CursorsStay (context.setIteration changed).frames after) (level : Nat)
          (held : Iteration) (outside : level ≠ rest.length)
          (there : Frame.cursorAt (top :: rest) level = some held) :
          Frame.cursorAt after level = some held := by
        refine stay level held ?_
        rw [frames_setIteration frames, Frame.cursorAt_cons, if_neg outside]
        rwa [Frame.cursorAt_cons, if_neg outside] at there
      have cleared := (nested_setIteration nested current found none (by simp)).1
      have kept (changed : Option Iteration) :=
        (context.keepsScope_setIteration changed).script
      unfold nextPass
      rw [iteration_setIteration current, Option.bind_some]
      simp only [List.length_cons, Nat.add_sub_cancel]
      cases next : cursor.next heap with
      | some answer =>
          obtain ⟨value, moved⟩ := answer
          dsimp only
          rw [setIteration_setIteration]
          have looping := (nested_setIteration nested current found (some moved) fun _ => trivial).1
          have attached : (Statement.forLoop item iterable body span).Attaches
              (context.setIteration (some moved)).script this
              ⟨body, some this, some this, some this, none⟩ := ⟨rfl, rfl, rfl⟩
          have stay := stay_enter (kept _ ▸ looping) ((context.current_setIteration _).trans current)
            (kept (some moved) ▸ found) attached
          refine ⟨_, _, rfl, others (some moved) stay, stay _ _ ?_⟩
          rw [frames_setIteration frames, Frame.cursorAt_cons, if_pos rfl]
      | none =>
          dsimp only
          rw [setIteration_setIteration]
          have stay := stay_proceed (kept none ▸ cleared) context.iteration_setIteration_none
          have old := (nested_proceed (kept none ▸ linked) (kept none ▸ cleared)
            ((context.current_setIteration none).trans current)
            context.iteration_setIteration_none).2.stay
          refine ⟨_, _, rfl, others none stay, ?_⟩
          refine Option.eq_none_iff_forall_not_mem.mpr fun held there => ?_
          have before := old _ held there
          rw [frames_setIteration frames, Frame.cursorAt_cons, if_pos rfl] at before
          cases before

end Context

/-!
## Sessions
-/

namespace Session

/-- The cursor in the frame with so many frames below it, in the context with so many contexts
below it. -/
def cursorIn (stack : List Activation) (place : Nat × Nat) : Option Iteration :=
  stack.reverse[place.1]?.bind fun activation =>
    Frame.cursorAt activation.context.frames place.2

def cursor? (session : Session) (place : Nat × Nat) : Option Iteration :=
  cursorIn session.stack place

/-- Every cursor is still there, in the same place. -/
def StackStays (before after : List Activation) : Prop :=
  ∀ place cursor, cursorIn before place = some cursor → cursorIn after place = some cursor

/-- The place of the innermost frame of the innermost context. -/
def innermost (session : Session) : Nat × Nat :=
  match session.stack with
  | [] => (0, 0)
  | top :: below => (below.length, top.context.frames.length - 1)

/-- The cursor of the loop that the next turn tests for a further pass: the turn begins a loop
again, or it hands the value to iterate over to a loop that is entered. -/
def testing (session : Session) : Option Iteration :=
  match session.stack with
  | ⟨context, .resting⟩ :: _ =>
      if ({ session with now := session.now + 1 } : Session).isOverdue.isSome then none
      else
        match context.current.bind context.script.statement? with
        | some (.forLoop ..) => context.iteration
        | _ => none
  | ⟨context, .evaluating (.forLoop ..)⟩ :: _ =>
      match context.evaluation.advance session.heap with
      | (.finished value, _, _) => (Iteration.start value).toOption
      | _ => none
  | _ => none

/-- The next turn begins a break of the innermost context, or makes it return. -/
inductive Leaves (session : Session) : Prop where
  | breaks {context : Context} {below : List Activation} {this : StatementRef} {count : Nat}
      {span : Span} (stack : session.stack = ⟨context, .resting⟩ :: below)
      (current : context.current = some this)
      (found : context.script.statement? this = some (.breakLoops count span))
  | returns {context : Context} {below : List Activation} {this : StatementRef}
      (stack : session.stack = ⟨context, .resting⟩ :: below)
      (current : context.current = some this)
      (found : context.script.statement? this = some (.returnValue none))
  | returnsValue {context : Context} {below : List Activation}
      (stack : session.stack = ⟨context, .evaluating .returnValue⟩ :: below)

/-- What a turn does to the cursors. -/
inductive CursorTurn (session : Session) (answer : Progress × Session) : Prop where
  | stays (idle : session.testing = none) (stay : StackStays session.stack answer.2.stack)
  /-- The loop that the innermost frame stands on is tested. -/
  | tests {cursor : Iteration} (testing : session.testing = some cursor)
      (held : ∀ other, session.cursor? session.innermost = some other → other = cursor)
      (moved : answer.2.cursor? session.innermost = (cursor.next session.heap).map Prod.snd)
      (others : ∀ place other, place ≠ session.innermost → session.cursor? place = some other →
        answer.2.cursor? place = some other)
  /-- Loops of the innermost context are left. -/
  | leaves (idle : session.testing = none) (leaves : session.Leaves)
      (old : StackStays answer.2.stack session.stack)
      (others : ∀ place other, place.1 + 1 ≠ session.stack.length →
        session.cursor? place = some other → answer.2.cursor? place = some other)
  | fails (idle : session.testing = none) (failed : ∃ failure, answer.1 = .failed failure)
      (old : StackStays answer.2.stack session.stack)

theorem cursorIn_cons (top : Activation) (below : List Activation) (place : Nat × Nat) :
    cursorIn (top :: below) place =
      if place.1 = below.length then Frame.cursorAt top.context.frames place.2
      else cursorIn below place := by
  simp only [cursorIn, getElem?_reverse_cons]
  split <;> rfl

theorem depth_of_cursorIn {stack : List Activation} {place : Nat × Nat} {cursor : Iteration}
    (found : cursorIn stack place = some cursor) : place.1 < stack.length := by
  obtain ⟨activation, inside, _⟩ := Option.bind_eq_some_iff.mp found
  simpa using (List.getElem?_eq_some_iff.mp inside).1

namespace StackStays

theorem refl (stack : List Activation) : StackStays stack stack :=
  fun _ _ found => found

theorem trans {first second third : List Activation} (early : StackStays first second)
    (late : StackStays second third) : StackStays first third :=
  fun place cursor found => late place cursor (early place cursor found)

theorem push (top : Activation) (below : List Activation) : StackStays below (top :: below) := by
  intro place cursor found
  rw [cursorIn_cons, if_neg (Nat.ne_of_lt (depth_of_cursorIn found))]
  exact found

theorem top {old new : Activation} (stay : Frame.CursorsStay old.context.frames new.context.frames)
    (below : List Activation) : StackStays (old :: below) (new :: below) := by
  intro place cursor found
  rw [cursorIn_cons] at found ⊢
  split at found
  · next same => exact (if_pos same).trans (stay place.2 cursor found)
  · next other => exact (if_neg other).trans found

/-- The context on top keeps its frames. -/
theorem same {context after : Context} {activity changed : Activity}
    (frames : after.frames = context.frames) (below : List Activation) :
    StackStays (⟨context, activity⟩ :: below) (⟨after, changed⟩ :: below) := by
  refine .top ?_ below
  rw [frames]
  exact .refl _

/-- A context without frames is over. -/
theorem pop {top : Activation} (ended : top.context.frames = []) (below : List Activation) :
    StackStays (top :: below) below := by
  intro place cursor found
  rw [cursorIn_cons, ended] at found
  split at found
  · cases found
  · exact found

end StackStays

/-- An error makes no cursors. -/
theorem stays_unwind (failure : RuntimeError) (top : Activation) (heap : Heap)
    (below : List Activation) : StackStays (unwind failure top heap below).2.1 (top :: below) := by
  induction below generalizing failure top heap with
  | nil => exact .same rfl []
  | cons caller below ih =>
      unfold unwind
      split
      · exact (ih _ _ _).trans (.push top _)
      · exact (ih _ _ _).trans (.push top _)
      · exact .same rfl _

variable {session : Session}

private theorem CursorTurn.raised (idle : session.testing = none) {origin top : Activation}
    {below : List Activation} (stack : session.stack = origin :: below) (raising : Session)
    (failure : RuntimeError)
    (old : Frame.CursorsStay top.context.frames origin.context.frames) :
    session.CursorTurn (raising.raise failure top below) := by
  refine .fails idle ⟨_, rfl⟩ ?_
  rw [stack]
  exact (stays_unwind failure top raising.heap below).trans (.top old below)

private theorem CursorTurn.settled (idle : session.testing = none) {origin : Activation}
    {below : List Activation} (stack : session.stack = origin :: below) (settling : Session)
    {outcome : StatementOutcome} (stay : outcome.StayCursors origin.context.frames) :
    session.CursorTurn (settling.settleStatement outcome below) := by
  cases outcome with
  | done | line | evaluate =>
      refine .stays idle ?_
      rw [stack]
      refine .top ?_ below
      exact stay
  | declare name body span context heap =>
      refine .stays idle ?_
      rw [stack]
      refine StackStays.trans (StackStays.top ?_ below) (.push _ _)
      exact stay
  | failed failure context heap => exact .raised idle stack _ failure stay

/-- A break or a return has been executed, or failed. -/
private theorem CursorTurn.left (idle : session.testing = none) (leaves : session.Leaves)
    {origin : Activation} {below : List Activation} (stack : session.stack = origin :: below)
    (settling : Session) {after : Context} {heap : Heap}
    (old : Frame.CursorsStay after.frames origin.context.frames) :
    session.CursorTurn (settling.settleStatement (.done after heap) below) := by
  refine .leaves idle leaves ?_ fun place other outside found => ?_
  · rw [stack]
    exact .top old below
  · have upper : place.1 ≠ below.length := by
      rw [stack] at outside
      exact fun same => outside (congrArg (· + 1) same)
    rw [cursor?, stack, cursorIn_cons, if_neg upper] at found
    exact (cursorIn_cons _ _ _).trans ((if_neg upper).trans found)

/-- A loop has been tested for its next pass. -/
private theorem CursorTurn.tested {cursor : Iteration} (testing : session.testing = some cursor)
    {context : Context} {activity : Activity} {below : List Activation}
    (stack : session.stack = ⟨context, activity⟩ :: below) (settling : Session)
    {after : Context} {grown : Heap}
    (held : ∀ other, Frame.cursorAt context.frames (context.frames.length - 1) = some other →
      other = cursor)
    (others : ∀ level held, level ≠ context.frames.length - 1 →
      Frame.cursorAt context.frames level = some held →
      Frame.cursorAt after.frames level = some held)
    (moved : Frame.cursorAt after.frames (context.frames.length - 1) =
      (cursor.next session.heap).map Prod.snd) :
    session.CursorTurn (settling.settleStatement (.done after grown) below) := by
  have innermost : session.innermost = (below.length, context.frames.length - 1) := by
    simp only [Session.innermost, stack]
  refine .tests testing ?_ ?_ ?_
  · rw [innermost, cursor?, stack, cursorIn_cons, if_pos rfl]
    exact held
  · rw [innermost]
    exact (cursorIn_cons _ _ _).trans ((if_pos rfl).trans moved)
  · rintro ⟨depth, level⟩ other outside found
    rw [cursor?, stack, cursorIn_cons] at found
    refine (cursorIn_cons _ _ _).trans ?_
    split at found
    · next same =>
        have same : depth = below.length := same
        refine (if_pos same).trans (others level other (fun top => ?_) found)
        rw [innermost, same, top] at outside
        exact outside rfl
    · next upper => exact (if_neg upper).trans found

private theorem beginCall_cursors (idle : session.testing = none) {context : Context}
    {continuation : Continuation} {below : List Activation} {evaluation : Evaluation}
    (stack : session.stack = ⟨context, .evaluating continuation⟩ :: below) (calling : Session)
    (request : CallRequest) (scope : Option Value) :
    session.CursorTurn
      (calling.beginCall request scope { context with evaluation } continuation below) := by
  unfold beginCall
  dsimp only
  split
  · exact .raised idle stack _ _ (.refl _)
  · split
    · next action _ =>
        have contexts := runNative_keeps { calling with
          stack := ⟨{ context with evaluation }, .evaluating continuation⟩ :: below } action
          request.arguments request.receiver
        generalize runNative _ action _ _ = answer at contexts
        obtain ⟨answer, after⟩ := answer
        cases answer with
        | ok value =>
            refine .stays idle ?_
            dsimp only
            rw [modifyContext_of_stack contexts.stack, stack]
            refine .same ?_ below
            rfl
        | error cause => exact .raised idle stack _ _ (.refl _)
    · refine .stays idle ?_
      rw [stack]
      refine StackStays.trans (StackStays.same ?_ below) (.push _ _)
      rfl

private theorem complete_cursors (fine : nesting.SessionFine session) (idle : session.testing = none)
    {top caller : Activation} {below : List Activation}
    (stack : session.stack = top :: caller :: below) (ended : top.context.frames = [])
    (completing : Session) (same : completing.stack = session.stack) :
    session.CursorTurn (completing.complete top.context caller below) := by
  have callerFine := fine.stack caller (stack ▸ by simp)
  unfold complete
  dsimp only
  split
  · refine .stays idle ?_
    rw [stack]
    refine (StackStays.pop ended _).trans (.same ?_ below)
    rfl
  · next name span waits =>
      obtain ⟨_, nested, active⟩ := callerFine
      rw [waits] at active
      obtain ⟨_, _, _, _, resting⟩ := active
      unfold Context.takeNames
      split
      · refine .stays idle ?_
        rw [stack]
        exact (StackStays.pop ended _).trans (.top (Context.stay_proceed nested resting) below)
      · refine .fails idle ⟨_, rfl⟩ ?_
        rw [stack]
        exact ((stays_unwind _ _ _ below).trans (.same rfl below)).trans (.push top _)
  · refine .stays idle ?_
    rw [same]
    exact .refl _

private theorem beginStatement_cursors {context : Context} {below : List Activation}
    (stack : session.stack = ⟨context, .resting⟩ :: below) (linked : context.script.Linked)
    (nested : Frame.Nested context.script context.frames) {this : StatementRef}
    (current : context.current = some this) {statement : Statement}
    (found : context.script.statement? this = some statement)
    (test : session.testing =
      match context.current.bind context.script.statement? with
      | some (.forLoop ..) => context.iteration
      | _ => none) (settling : Session) :
    session.CursorTurn
      (settling.settleStatement (context.beginStatement session.heap this statement) below) := by
  rw [current, Option.bind_some, found] at test
  have quiet (other : ¬statement.IsFor) : context.iteration = none ∧ session.testing = none := by
    refine ⟨?_, ?_⟩
    · cases frames : context.frames with
      | nil => simp [Context.current, frames] at current
      | cons top rest =>
          rw [Context.current, frames] at current
          rw [Context.iteration, frames]
          exact (frames ▸ nested).seated.idle current found other
    · cases statement with
      | forLoop => exact (other trivial).elim
      | _ => exact test
  by_cases jumps : statement.Jumps
  · cases statement with
    | breakLoops count span =>
        have idle := (quiet id).2
        have old := (Context.nested_breakOut linked nested count).2.stay
        simp only [Context.beginStatement]
        generalize context.breakOut count = answer at old
        obtain ⟨answer, after⟩ := answer
        cases answer with
        | ok => exact .left idle (.breaks stack current found) stack _ old
        | error failure => exact .raised idle stack _ _ old
    | returnValue value =>
        cases value with
        | some node => exact jumps.elim
        | none =>
            exact .left (quiet id).2 (.returns stack current found) stack _
              (Frame.OldCursors.nil _).stay
    | _ => exact jumps.elim
  · cases iterating : context.iteration with
    | none =>
        have idle : session.testing = none := by
          by_cases loops : statement.IsFor
          · cases statement with
            | forLoop => exact test.trans iterating
            | _ => exact loops.elim
          · exact (quiet loops).2
        exact .settled idle stack _
          (Context.stay_beginStatement nested current session.heap found iterating jumps)
    | some cursor =>
        by_cases loops : statement.IsFor
        · cases statement with
          | forLoop item iterable body span =>
              obtain ⟨after, grown, outcome, others, moved⟩ :=
                Context.nextPass_cursors nested current linked session.heap found cursor
              rw [← iterating, Context.setIteration_iteration] at outcome
              have begun : context.beginStatement session.heap this
                  (.forLoop item iterable body span) = .done after grown := by
                simp only [Context.beginStatement, iterating]
                exact outcome
              rw [begun]
              refine .tested (test.trans iterating) stack settling ?_ others moved
              intro other held
              cases frames : context.frames with
              | nil => simp [Context.current, frames] at current
              | cons top rest =>
                  rw [frames, Frame.cursorAt_cons, if_pos (by simp)] at held
                  rw [Context.iteration, frames] at iterating
                  exact Option.some.inj (held.symm.trans iterating)
          | _ => exact loops.elim
        · rw [(quiet loops).1] at iterating
          cases iterating

/-- The turn that gives the value of an expression changes no heap. -/
theorem heap_of_finished {evaluation after : Evaluation} {heap grown : Heap} {value : Value}
    (turn : evaluation.advance heap = (.finished value, after, grown)) : grown = heap := by
  unfold Evaluation.advance at turn
  split at turn
  · dsimp only at turn
    split at turn
    · cases turn
      rfl
    · cases turn
  · dsimp only at turn
    split at turn
    · cases turn
    · split at turn <;> cases turn

private theorem deliver_cursors {context : Context} {continuation : Continuation}
    {below : List Activation} (stack : session.stack = ⟨context, .evaluating continuation⟩ :: below)
    (fine : nesting.Fine context (.evaluating continuation)) {value : Value}
    {evaluation : Evaluation} {heap : Heap}
    (turn : context.evaluation.advance session.heap = (.finished value, evaluation, heap))
    (settling : Session) :
    session.CursorTurn
      (settling.settleStatement ({ context with evaluation }.deliver heap continuation value)
        below) := by
  obtain rfl := heap_of_finished turn
  obtain ⟨linked, nested, this, statement, ⟨current, found, resting⟩, fits⟩ :=
    Nesting.evaluated (Context.script_of_advance turn) fine
  have test : session.testing = continuation.starts value := by
    cases continuation <;> simp only [testing, stack, turn, Continuation.starts]
  by_cases returns : continuation = .returnValue
  · subst returns
    exact .left test (.returnsValue stack) stack _ (Frame.OldCursors.nil _).stay
  by_cases loops : ∃ loop item body span, continuation = .forLoop loop item body span
  · obtain ⟨loop, item, body, span, rfl⟩ := loops
    obtain ⟨rfl, iterable, rfl⟩ := fits
    simp only [Context.deliver]
    cases started : Iteration.start value with
    | error cause =>
        rw [Continuation.starts, started] at test
        exact .raised test stack _ _ (.refl _)
    | ok cursor =>
        rw [Continuation.starts, started] at test
        obtain ⟨after, grown, outcome, others, moved⟩ :=
          Context.nextPass_cursors nested current linked session.heap found cursor
        dsimp only
        rw [outcome]
        refine .tested test stack settling ?_ others moved
        intro other held
        cases frames : context.frames with
        | nil => simp [Context.current, frames] at current
        | cons top rest =>
            rw [frames, Frame.cursorAt_cons, if_pos (by simp)] at held
            have idle : top.iteration = none := by simpa [Context.iteration, frames] using resting
            rw [idle] at held
            cases held
  · have idle : session.testing = none := by
      cases continuation with
      | forLoop => exact (loops ⟨_, _, _, _, rfl⟩).elim
      | _ => exact test
    have loops (loop item body span) : continuation ≠ .forLoop loop item body span :=
      fun same => loops ⟨_, _, _, _, same⟩
    exact .settled idle stack settling
      (Context.stay_deliver nested current session.heap found resting fits loops returns value)

/-- No loop is tested while an expression is evaluated. -/
private theorem testing_of_evaluating {context : Context} {continuation : Continuation}
    {below : List Activation} (stack : session.stack = ⟨context, .evaluating continuation⟩ :: below)
    (unfinished : ∀ value, (context.evaluation.advance session.heap).1 ≠ .finished value) :
    session.testing = none := by
  cases continuation with
  | forLoop =>
      simp only [testing, stack]
      split
      · next value _ _ turn => exact (unfinished value (congrArg Prod.fst turn)).elim
      · rfl
  | _ => simp only [testing, stack]

section

variable {context : Context} {below : List Activation}

/-- A turn for which there is no time. -/
theorem advance_of_overdue (stack : session.stack = ⟨context, .resting⟩ :: below) {limit : Nat}
    (overdue : ({ session with now := session.now + 1 } : Session).isOverdue = some limit) :
    session.advance = ({ session with now := session.now + 1 } : Session).raise
      (.unplaced (.timeLimit limit)) ⟨context, .resting⟩ below := by
  have overdue : ({ session with
      stack := ⟨context, .resting⟩ :: below, now := session.now + 1 } : Session).isOverdue =
      some limit := overdue
  unfold Session.advance
  simp only [stack, overdue]

/-- The turn that begins a statement, if there is time for it. -/
theorem advance_of_begin (stack : session.stack = ⟨context, .resting⟩ :: below)
    {this : StatementRef} {statement : Statement} (current : context.current = some this)
    (found : context.script.statement? this = some statement)
    (inTime : ({ session with now := session.now + 1 } : Session).isOverdue = none) :
    session.advance = ({ session with now := session.now + 1 } : Session).settleStatement
      (context.beginStatement session.heap this statement) below := by
  have inTime : ({ session with
      stack := ⟨context, .resting⟩ :: below, now := session.now + 1 } : Session).isOverdue =
      none := inTime
  unfold Session.advance
  simp only [stack, inTime, beginNext, current, found]

/-- The turn that hands the value of an expression to its statement. -/
theorem advance_of_finished {continuation : Continuation}
    (stack : session.stack = ⟨context, .evaluating continuation⟩ :: below) {value : Value}
    {evaluation : Evaluation} {heap : Heap}
    (taken : context.evaluation.advance session.heap = (.finished value, evaluation, heap)) :
    session.advance = ({ session with heap } : Session).settleStatement
      (({ context with evaluation } : Context).deliver heap continuation value) below := by
  unfold Session.advance
  simp only [stack, taken]

end

/-- Every turn leaves cursors alone, tests a loop, leaves loops or fails. -/
theorem advance_cursors (fine : nesting.SessionFine session) :
    session.CursorTurn session.advance := by
  cases stack : session.stack with
  | nil =>
      have idle : session.testing = none := by simp only [testing, stack]
      refine .stays idle ?_
      simp only [advance, stack]
      split <;> exact stack ▸ .refl _
  | cons top below =>
      obtain ⟨context, activity⟩ := top
      obtain ⟨linked, nested, active⟩ := fine.stack ⟨context, activity⟩ (stack ▸ List.mem_cons_self)
      simp only [advance, stack]
      cases activity with
      | resting =>
          dsimp only
          cases overdue : isOverdue _ with
          | some limit =>
              have idle : session.testing = none := by
                simp only [testing, stack, overdue, Option.isSome_some, if_true]
              exact .raised idle stack _ _ (.refl _)
          | none =>
              have test : session.testing =
                  match context.current.bind context.script.statement? with
                  | some (.forLoop ..) => context.iteration
                  | _ => none := by
                simp only [testing, stack, overdue, Option.isSome_none, Bool.false_eq_true, if_false]
              dsimp only [beginNext]
              cases current : context.current with
              | none =>
                  rw [current] at test
                  cases below with
                  | nil =>
                      refine .stays test ?_
                      rw [stack]
                      exact .refl _
                  | cons caller below =>
                      have ended : context.frames = [] := by
                        cases frames : context.frames with
                        | nil => rfl
                        | cons top rest =>
                            obtain ⟨this, _, stands, _⟩ := (frames ▸ nested).seated
                            rw [Context.current, frames] at current
                            cases stands.symm.trans current
                      exact complete_cursors fine test stack ended _ stack.symm
              | some this =>
                  obtain ⟨statement, found⟩ := Context.nested_current nested current
                  simp only [found]
                  exact beginStatement_cursors stack linked nested current found test _
      | evaluating continuation =>
          dsimp only
          generalize taken : context.evaluation.advance session.heap = answer
          obtain ⟨turn, evaluation, heap⟩ := answer
          dsimp only
          cases turn with
          | finished value => exact deliver_cursors stack ⟨linked, nested, active⟩ taken _
          | working =>
              refine .stays (testing_of_evaluating stack (by rw [taken]; rintro _ ⟨⟩)) ?_
              rw [stack]
              refine .same ?_ below
              rfl
          | call request scope =>
              exact beginCall_cursors (testing_of_evaluating stack (by rw [taken]; rintro _ ⟨⟩)) stack
                _ request scope
          | endless =>
              refine .stays (testing_of_evaluating stack (by rw [taken]; rintro _ ⟨⟩)) ?_
              rw [stack]
              exact .refl _
          | failed failure =>
              exact .raised (testing_of_evaluating stack (by rw [taken]; rintro _ ⟨⟩)) stack _ failure
                (.refl _)
      | calling | declaring =>
          refine .stays (by simp only [testing, stack]) ?_
          rw [stack]
          exact .refl _

/-- If the innermost frame has a cursor, then the next turn tests its loop, or it fails. -/
theorem testing_of_cursor (fine : nesting.SessionFine session) {cursor : Iteration}
    (held : session.cursor? session.innermost = some cursor) :
    session.testing = some cursor ∨ ∃ failure, session.advance.1 = .failed failure := by
  cases stack : session.stack with
  | nil => simp [cursor?, stack, cursorIn] at held
  | cons top below =>
      obtain ⟨context, activity⟩ := top
      obtain ⟨_, nested, active⟩ := fine.stack ⟨context, activity⟩ (stack ▸ List.mem_cons_self)
      have innermost : session.innermost = (below.length, context.frames.length - 1) := by
        simp only [Session.innermost, stack]
      rw [innermost, cursor?, stack, cursorIn_cons, if_pos rfl] at held
      cases frames : context.frames with
      | nil => simp [frames, Frame.cursorAt] at held
      | cons frame rest =>
          rw [frames] at nested held
          rw [Frame.cursorAt_cons, if_pos (by simp)] at held
          have iterates : context.iteration = some cursor := by
            rw [Context.iteration, frames]
            exact held
          have busy {this : StatementRef} {statement : Statement}
              (stands : context.Stands this statement) : False := by
            rw [stands.2.2] at iterates
            cases iterates
          cases activity with
          | evaluating | calling =>
              obtain ⟨_, _, stands, _⟩ := active
              exact (busy stands).elim
          | declaring =>
              obtain ⟨_, _, stands⟩ := active
              exact (busy stands).elim
          | resting =>
              obtain ⟨this, statement, stands, found, loops⟩ := nested.seated
              have current : context.current = some this := by
                rw [Context.current, frames]
                exact stands
              cases overdue : ({ session with now := session.now + 1 } : Session).isOverdue with
              | some limit =>
                  rw [advance_of_overdue stack overdue]
                  exact .inr ⟨_, rfl⟩
              | none =>
                  have inTime : ({ session with
                      stack := ⟨context, .resting⟩ :: below, now := session.now + 1 } :
                      Session).isOverdue = none := overdue
                  refine .inl ?_
                  cases statement with
                  | forLoop =>
                      simp only [testing, stack, inTime, current, Option.bind_some, found,
                        Option.isSome_none, Bool.false_eq_true, if_false]
                      exact iterates
                  | _ => exact (loops (by rw [held]; rfl)).elim

end Session

end ScriptEngine
