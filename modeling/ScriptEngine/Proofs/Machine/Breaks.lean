import Mathlib
import ScriptEngine.Proofs.Control.Enclosing
import ScriptEngine.Proofs.Machine.Nesting
import ScriptEngine.Proofs.Machine.Reports

/-!
# Breaks leave the loops of their own body

In every session that a host can reach, each context began with a body of its own: that of
its script, of a function or of a record's block. So its frames stand on all of the branches
and loops that the script has around the current statement, and a break leaves as many of
these loops as it says. The block of a record has a context of its own, which no break leaves.
-/

set_option autoImplicit false

namespace ScriptEngine

/-!
## Contexts are grounded
-/

namespace Context

/-- The outermost frame is in the sequence that the context began with. -/
def Grounded (context : Context) : Prop :=
  Frame.Grounded context.script context.frames

theorem Grounded.to {context after : Context} (scope : context.KeepsScope after)
    (grounded : Frame.Grounded context.script after.frames) : after.Grounded := by
  unfold Grounded
  rw [scope.script]
  exact grounded

variable {context : Context}

theorem Grounded.evaluated (grounded : context.Grounded) {evaluation : Evaluation}
    (place : context.evaluation.KeepsPlace evaluation) :
    ({ context with evaluation } : Context).Grounded :=
  @Grounded.to context _ ⟨rfl, place, rfl⟩ grounded

theorem grounded_entry (empty : context.frames = []) {entry : Option StatementRef}
    (begins : context.script.Begins entry) : (context.enter entry none none none).Grounded := by
  refine .to (context.keepsScope_enter entry none none none) ?_
  cases entry with
  | none =>
      rw [frames_enter_none, empty]
      exact .nil
  | some first =>
      rw [frames_enter_some, empty]
      rintro _ ⟨⟩
      exact ⟨some first, first, rfl, begins, .here rfl⟩

theorem grounded_setIteration (grounded : context.Grounded) (iteration : Option Iteration) :
    (context.setIteration iteration).Grounded := by
  refine .to (context.keepsScope_setIteration iteration) ?_
  unfold Grounded at grounded
  unfold setIteration modifyFrame
  split
  · exact grounded
  · next frame rest frames =>
      rw [frames] at grounded
      exact grounded.replaceTop rfl

variable (nested : Frame.Nested context.script context.frames)

include nested

theorem grounded_proceed (grounded : context.Grounded) {this : StatementRef}
    (current : context.current = some this) : context.proceed.Grounded := by
  refine .to context.keepsScope_proceed ?_
  rw [frames_proceed, current]
  unfold Grounded at grounded
  cases frames : context.frames with
  | nil => simp [Context.current, frames] at current
  | cons top rest =>
      rw [frames] at nested grounded
      have stands : top.current = some this := by
        simpa [Context.current, frames] using current
      exact Frame.grounded_leaveFinished nested grounded stands

theorem grounded_enter (grounded : context.Grounded) {this : StatementRef}
    (current : context.current = some this) {statement : Statement}
    {body fallback continueTarget breakTarget : Option StatementRef}
    (attached : statement.Attaches context.script this
      ⟨body, fallback, continueTarget, breakTarget, none⟩) :
    (context.enter body fallback continueTarget breakTarget).Grounded := by
  refine .to (context.keepsScope_enter _ _ _ _) ?_
  have proceeded := grounded_proceed nested grounded current
  unfold Grounded at grounded proceeded
  rw [context.keepsScope_proceed.script, frames_proceed, current] at proceeded
  cases frames : context.frames with
  | nil => simp [Context.current, frames] at current
  | cons top rest =>
      have stands : top.current = some this := by
        simpa [Context.current, frames] using current
      rw [frames] at grounded proceeded
      cases body with
      | some first =>
          rw [frames_enter_some, frames]
          exact grounded.cons _
      | none =>
          rw [frames_enter_none, frames]
          cases statement with
          | branch branches otherwise =>
              obtain ⟨rfl, _⟩ := attached
              exact proceeded
          | whileLoop | forLoop =>
              obtain ⟨rfl, _⟩ := attached
              exact grounded.replaceTop stands.symm
          | _ => exact attached.elim

theorem grounded_nextLoopPass (grounded : context.Grounded) :
    context.nextLoopPass.2.Grounded := by
  refine .to context.keepsScope_nextLoopPass ?_
  unfold nextLoopPass
  split
  · next target below found =>
      obtain ⟨_, resumes, _⟩ := Frame.nested_findContinue nested found
      rw [frames_resumeAt]
      dsimp only
      rw [resumes]
      obtain ⟨left, frame, split, _, _⟩ := Frame.findContinue_some found
      exact (Frame.Grounded.suffix grounded ⟨left, split.symm⟩).below
  · exact .nil

theorem grounded_breakOut (grounded : context.Grounded) (count : Nat) :
    (context.breakOut count).2.Grounded := by
  have breaks := context.breaksOut count
  have none : ({ context with frames := [] } : Context).Grounded :=
    .to (context.keepsScope_frames []) .nil
  rcases Nat.eq_zero_or_pos count with zero | positive
  · rw [breaks.invalid zero]
    exact grounded
  rcases Nat.lt_or_ge (Frame.loops context.frames) count with few | enough
  · rcases Nat.eq_zero_or_pos (Frame.loops context.frames) with absent | present
    · rw [breaks.none positive absent]
      exact none
    · rw [breaks.few present few]
      exact none
  · obtain ⟨left, frame, below, target, split, _, breakTarget, answer⟩ :=
      breaks.enough positive enough
    have suffix : frame :: below <:+ context.frames := ⟨left, split.symm⟩
    have frameNested := nested.suffix suffix
    obtain ⟨lower, lowest, rfl, current⟩ := frameNested.target (.inr breakTarget)
    rw [answer]
    have lowerGrounded := (Frame.Grounded.suffix grounded suffix).below
    refine @grounded_proceed (context.standing (some target)
      (Frame.withoutCursor (lower :: lowest))) ?_ ?_ _ rfl
    · exact frameNested.below.withoutCursor current
    · exact lowerGrounded.replaceTop current.symm

end Context

/-- All functions with a body in a script have a body of the script that begins a context. -/
def Function.Grounded (function : Function) : Prop :=
  ∀ script entry, function.body = .script script entry → script.Begins entry

def Heap.Grounded (heap : Heap) : Prop :=
  ∀ function ∈ heap.functions, function.Grounded

/-- What a statement came to is grounded, and so is the block that it opens. -/
def StatementOutcome.Grounded : StatementOutcome → Prop
  | .done context heap => heap.Grounded ∧ context.Grounded
  | .line _ context heap => heap.Grounded ∧ context.Grounded
  | .evaluate _ _ context heap => heap.Grounded ∧ context.Grounded
  | .declare _ body _ context heap =>
      heap.Grounded ∧ context.Grounded ∧ context.script.Begins body
  | .failed _ context heap => heap.Grounded ∧ context.Grounded

namespace Heap.Grounded

variable {heap : Heap} (grounded : heap.Grounded)

include grounded

theorem of_functions {grown : Heap} (same : grown.functions = heap.functions) : grown.Grounded :=
  fun function member => grounded function (same ▸ member)

theorem newFunction {function : Function} (functionGrounded : function.Grounded) :
    (heap.newFunction function).2.Grounded := by
  intro other member
  rcases Array.mem_push.mp member with old | rfl
  · exact grounded other old
  · exact functionGrounded

end Heap.Grounded

namespace Context

variable {context : Context} {heap : Heap} (heapGrounded : heap.Grounded)
  (nested : Frame.Nested context.script context.frames) (grounded : context.Grounded)

include heapGrounded nested grounded

theorem grounded_tryBranches {this : StatementRef} (current : context.current = some this)
    (branches rest : List (ExpressionRef × Option StatementRef))
    (otherwise : Option (Option StatementRef)) :
    (context.tryBranches heap rest otherwise (context.script.next this)).Grounded := by
  cases rest with
  | cons test rest => exact ⟨heapGrounded, grounded⟩
  | nil =>
      cases otherwise with
      | none => exact ⟨heapGrounded, grounded_proceed nested grounded current⟩
      | some body =>
          have attached : (Statement.branch branches (some body)).Attaches context.script this
              ⟨body, context.script.next this, none, none, none⟩ := ⟨rfl, rfl, rfl⟩
          exact ⟨heapGrounded, grounded_enter nested grounded current attached⟩

theorem grounded_nextPass {this : StatementRef} (current : context.current = some this)
    {item : String} {iterable : ExpressionRef} {body : Option StatementRef} {span : Span}
    (found : context.script.statement? this = some (.forLoop item iterable body span))
    (iteration : Option Iteration) :
    ((context.setIteration iteration).nextPass heap this item body).Grounded := by
  have moved (cursor : Option Iteration) (loops : Frame.Nested context.script
      (context.setIteration cursor).frames) :
      Frame.Nested (context.setIteration cursor).script (context.setIteration cursor).frames := by
    rw [(context.keepsScope_setIteration cursor).script]
    exact loops
  unfold nextPass
  rw [setIteration_setIteration]
  split
  · next value cursor _ =>
      rw [setIteration_setIteration]
      have looping := moved (some cursor)
        (nested_setIteration nested current found (some cursor) fun _ => trivial).1
      have attached : (Statement.forLoop item iterable body span).Attaches
          (context.setIteration (some cursor)).script this
          ⟨body, some this, some this, some this, none⟩ := ⟨rfl, rfl, rfl⟩
      exact ⟨heapGrounded.of_functions rfl,
        grounded_enter looping (grounded_setIteration grounded _)
          ((context.current_setIteration _).trans current) attached⟩
  · have left := moved none (nested_setIteration nested current found none nofun).1
    exact ⟨heapGrounded, grounded_proceed left (grounded_setIteration grounded none)
      ((context.current_setIteration none).trans current)⟩

theorem grounded_beginStatement {this : StatementRef} {statement : Statement}
    (current : context.current = some this)
    (found : context.script.statement? this = some statement) :
    (context.beginStatement heap this statement).Grounded := by
  have proceeded := grounded_proceed nested grounded current
  cases statement with
  | expression node | whileLoop condition body => exact ⟨heapGrounded, grounded⟩
  | print values => cases values with
    | nil => exact ⟨heapGrounded, proceeded⟩
    | cons first rest => exact ⟨heapGrounded, grounded⟩
  | assign target operator value span => cases target <;> exact ⟨heapGrounded, grounded⟩
  | branch branches otherwise =>
      exact grounded_tryBranches heapGrounded nested grounded current branches branches otherwise
  | forLoop item iterable body span =>
      simp only [beginStatement]
      split
      · have pass := grounded_nextPass heapGrounded nested grounded current found context.iteration
        rw [setIteration_iteration] at pass
        exact pass
      · exact ⟨heapGrounded, grounded⟩
  | breakLoops count span =>
      have broken := grounded_breakOut nested grounded count
      simp only [beginStatement]
      generalize context.breakOut count = answer at broken
      obtain ⟨answer, after⟩ := answer
      cases answer <;> exact ⟨heapGrounded, broken⟩
  | continueLoop span =>
      have continued := grounded_nextLoopPass nested grounded
      simp only [beginStatement]
      generalize context.nextLoopPass = answer at continued
      obtain ⟨answer, after⟩ := answer
      cases answer <;> exact ⟨heapGrounded, continued⟩
  | returnValue value => cases value with
    | none => exact ⟨heapGrounded, .to (context.keepsScope_returnWith .none) .nil⟩
    | some node => exact ⟨heapGrounded, grounded⟩
  | pass => exact ⟨heapGrounded, proceeded⟩
  | delete name span =>
      simp only [beginStatement]
      split
      · exact ⟨heapGrounded.of_functions rfl, proceeded⟩
      · exact ⟨heapGrounded, grounded⟩
  | define name parameters body =>
      refine ⟨(heapGrounded.newFunction ?_).of_functions rfl, proceeded⟩
      rintro script entry ⟨⟩
      exact .inr ⟨this, _, found, rfl⟩
  | record name body span =>
      exact ⟨heapGrounded, grounded, .inr ⟨this, _, found, rfl⟩⟩

theorem grounded_deliver {this : StatementRef} {statement : Statement}
    (stands : context.Stands this statement) {continuation : Continuation}
    (fits : continuation.Fits context.script this statement) (value : Value) :
    (context.deliver heap continuation value).Grounded := by
  have proceeded := grounded_proceed nested grounded stands.1
  cases continuation with
  | discard => exact ⟨heapGrounded, proceeded⟩
  | print line rest => cases rest with
    | nil => exact ⟨heapGrounded, proceeded⟩
    | cons next rest => exact ⟨heapGrounded, grounded⟩
  | assignName name operator span | assignMember object name operator span =>
      simp only [deliver]
      split
      · next stored grown found =>
          have functions := (AssignOperator.keepsObjects_combine found).functions
          exact ⟨heapGrounded.of_functions functions, proceeded⟩
      · exact ⟨heapGrounded, grounded⟩
  | assignMemberOf name operator expression span =>
      simp only [deliver]
      split <;> exact ⟨heapGrounded, grounded⟩
  | assignElementOf | assignElementAt => exact ⟨heapGrounded, grounded⟩
  | assignElement object index operator span =>
      simp only [deliver]
      split
      · next stored grown found =>
          have combined := (AssignOperator.keepsObjects_combine found).functions
          split
          · next written stored =>
              exact ⟨heapGrounded.of_functions ((Heap.functions_setElement stored).trans combined),
                proceeded⟩
          · exact ⟨heapGrounded.of_functions combined, grounded⟩
      · exact ⟨heapGrounded, grounded⟩
  | branch body rest otherwise following =>
      obtain ⟨branches, rfl, _, _, rfl⟩ := fits
      simp only [deliver]
      split
      · have attached : (Statement.branch branches otherwise).Attaches context.script this
            ⟨body, context.script.next this, none, none, none⟩ := ⟨rfl, rfl, rfl⟩
        exact ⟨heapGrounded, grounded_enter nested grounded stands.1 attached⟩
      · exact grounded_tryBranches heapGrounded nested grounded stands.1 branches rest otherwise
  | whileLoop loop body =>
      obtain ⟨rfl, condition, rfl⟩ := fits
      simp only [deliver]
      split
      · have attached : (Statement.whileLoop condition body).Attaches context.script loop
            ⟨body, some loop, some loop, some loop, none⟩ := ⟨rfl, rfl, rfl⟩
        exact ⟨heapGrounded, grounded_enter nested grounded stands.1 attached⟩
      · exact ⟨heapGrounded, proceeded⟩
  | forLoop loop item body span =>
      obtain ⟨rfl, iterable, rfl⟩ := fits
      simp only [deliver]
      split
      · next iteration _ =>
          exact grounded_nextPass heapGrounded nested grounded stands.1 stands.2.1 (some iteration)
      · exact ⟨heapGrounded, grounded⟩
  | returnValue => exact ⟨heapGrounded, .to (context.keepsScope_returnWith value) .nil⟩

end Context

/-- All frames nest, and the outermost frame of a context is in the sequence that the context
began with. -/
def grounding : LocalInvariant where
  FunctionFine function := nesting.FunctionFine function ∧ function.Grounded
  Fine context activity := nesting.Fine context activity ∧ context.Grounded
  ErrorFine _ := True
  Moves := nesting.Moves
  Fresh := nesting.Fresh

namespace Grounding

private theorem heap_nested {heap : Heap} (fine : grounding.HeapFine heap) :
    nesting.HeapFine heap :=
  fun function member => (fine function member).1

private theorem heap_grounded {heap : Heap} (fine : grounding.HeapFine heap) : heap.Grounded :=
  fun function member => (fine function member).2

private theorem outcome_fine {frames : List Frame} {outcome : StatementOutcome}
    (fine : nesting.OutcomeFine frames outcome) (grounded : outcome.Grounded) :
    grounding.OutcomeFine frames outcome := by
  have both {heap : Heap} (heapFine : nesting.HeapFine heap) (heapGrounded : heap.Grounded) :
      grounding.HeapFine heap :=
    fun function member => ⟨heapFine function member, heapGrounded function member⟩
  cases outcome with
  | done context heap | line text context heap =>
      exact ⟨both fine.1 grounded.1, ⟨fine.2.1, grounded.2⟩, fine.2.2⟩
  | evaluate expression continuation context heap =>
      exact ⟨both fine.1 grounded.1, ⟨fine.2.1, grounded.2⟩, fine.2.2⟩
  | declare name body span context heap =>
      obtain ⟨heapFine, contextFine, moves, opened⟩ := fine
      obtain ⟨heapGrounded, contextGrounded, begins⟩ := grounded
      refine ⟨both heapFine heapGrounded, ⟨contextFine, contextGrounded⟩, moves, fun members => ?_⟩
      obtain ⟨blockFine, fresh⟩ := opened members
      exact ⟨⟨blockFine, Context.grounded_entry rfl begins⟩, fresh⟩
  | failed failure context heap =>
      exact ⟨both fine.1 grounded.1, ⟨fine.2.1, grounded.2⟩, fine.2.2⟩

private theorem place_of_advance {evaluation after : Evaluation} {heap grown : Heap}
    {turn : Evaluation.Turn} (taken : evaluation.advance heap = (turn, after, grown)) :
    evaluation.KeepsPlace after := by
  have place := (evaluation.advance_keeps heap).1
  rw [taken] at place
  exact place

theorem kept : grounding.Kept where
  ordinary _ := trivial
  native {function} isNative := by
    refine ⟨Nesting.kept.native isNative, ?_⟩
    intro script entry body
    simp [Function.isNative, body] at isNative
  stays := Nesting.kept.stays
  abandons fine place := ⟨Nesting.kept.abandons fine.1 place, fine.2.evaluated place⟩
  begins fine current found heapFine :=
    outcome_fine (Nesting.kept.begins fine.1 current found (heap_nested heapFine))
      (Context.grounded_beginStatement (heap_grounded heapFine) fine.1.2.1 fine.2 current found)
  skips fine current missing := by
    obtain ⟨skipped, moves⟩ := Nesting.kept.skips fine.1 current missing
    exact ⟨⟨skipped, Context.grounded_proceed fine.1.2.1 fine.2 current⟩, moves⟩
  works fine turn := ⟨Nesting.kept.works fine.1 turn, fine.2.evaluated (place_of_advance turn)⟩
  calls fine turn := ⟨Nesting.kept.calls fine.1 turn, fine.2.evaluated (place_of_advance turn)⟩
  fails _ _ := trivial
  delivers fine turn heapFine := by
    obtain ⟨_, nested, this, statement, stands, fits⟩ :=
      Nesting.evaluated (Context.script_of_advance turn) fine.1
    exact outcome_fine (Nesting.kept.delivers fine.1 turn (heap_nested heapFine))
      (Context.grounded_deliver (heap_grounded heapFine) nested
        (fine.2.evaluated (place_of_advance turn)) stands fits _)
  returns fine value := ⟨Nesting.kept.returns fine.1 value, fine.2⟩
  declares fine := by
    obtain ⟨proceeded, moves⟩ := Nesting.kept.declares fine.1
    obtain ⟨_, nested, this, statement, current, _⟩ := fine.1
    exact ⟨⟨proceeded, Context.grounded_proceed nested fine.2 current⟩, moves⟩
  runs {script} parsed globals := by
    obtain ⟨opened, fresh⟩ := Nesting.kept.runs parsed globals
    exact ⟨⟨opened, Context.grounded_entry rfl (.inl rfl)⟩, fresh⟩
  breaks fine count := by
    obtain ⟨left, moves⟩ := Nesting.kept.breaks fine.1 count
    exact ⟨⟨left, Context.grounded_breakOut fine.1.2.1 fine.2 count⟩, moves⟩
  continues fine := by
    obtain ⟨left, moves⟩ := Nesting.kept.continues fine.1
    exact ⟨⟨left, Context.grounded_nextLoopPass fine.1.2.1 fine.2⟩, moves⟩
  resets {context} fine := by
    obtain ⟨left, moves⟩ := Nesting.kept.resets fine.1
    exact ⟨⟨left, .to ⟨rfl, ⟨rfl, rfl⟩, rfl⟩ .nil⟩, moves⟩
  enters functionFine body locals globals := by
    obtain ⟨opened, fresh⟩ := Nesting.kept.enters functionFine.1 body locals globals
    exact ⟨⟨opened, Context.grounded_entry rfl (functionFine.2 _ _ body)⟩, fresh⟩

end Grounding

/-!
## Breaks
-/

namespace Session

/-- The session is about to begin a statement that passes the test. -/
def begins (session : Session) (test : Script → StatementRef → Bool) : Bool :=
  match session.stack with
  | ⟨context, .resting⟩ :: _ => context.current.any (test context.script)
  | _ => false

theorem eq_of_begins {session : Session} {test : Script → StatementRef → Bool}
    (passed : session.begins test = true) :
    ∃ context below this, session.stack = ⟨context, .resting⟩ :: below ∧
      context.current = some this ∧ test context.script this = true := by
  unfold begins at passed
  split at passed
  · next context below stack =>
      obtain ⟨this, current, passed⟩ := (Option.any_eq_true _ _).mp passed
      exact ⟨context, below, this, stack, current, passed⟩
  · cases passed

/-- The operation fails because of this jump, which has this place. -/
def jumpFails {α : Type} (outcome : Answer α × Session) (jump : JumpFailure) (place : Span)
    (test : Session → Bool) : Bool :=
  match outcome with
  | (.failed ⟨.jump given, some span⟩, after) => given == jump && span == place && test after
  | _ => false

theorem eq_of_jumpFails {α : Type} {outcome : Answer α × Session} {jump : JumpFailure}
    {place : Span} {test : Session → Bool} (passed : jumpFails outcome jump place test = true) :
    ∃ after, outcome = (.failed (.placed (.jump jump) place), after) ∧ test after = true := by
  unfold jumpFails at passed
  split at passed
  · next given span after =>
      simp only [Bool.and_eq_true, beq_iff_eq] at passed
      obtain ⟨⟨rfl, rfl⟩, passed⟩ := passed
      exact ⟨after, rfl, passed⟩
  · cases passed

/-- In every session that a host can reach, the context that is about to begin a statement of
an accepted script stands on this statement and on the branches and loops around it. -/
theorem Reached.stand {session : Session} (reached : session.Reached) {source : String}
    {script : Script} (accepted : Script.ofSource source = .ok script) {activation : Activation}
    (member : activation ∈ session.stack) (runs : activation.context.script = script)
    {this : StatementRef} (current : activation.context.current = some this)
    {path : List StatementRef} (enclosed : script.Enclosed this path) :
    Frame.Nested script activation.context.frames ∧
      Frame.Stand activation.context.frames (this :: path) := by
  obtain ⟨⟨_, nested, _⟩, grounded⟩ :=
    (LocalInvariant.reached_fine Grounding.kept reached).stack activation member
  unfold Context.Grounded at grounded
  rw [runs] at nested grounded
  refine ⟨nested, ?_⟩
  cases frames : activation.context.frames with
  | nil => simp [Context.current, frames] at current
  | cons top rest =>
      rw [frames] at nested grounded
      obtain ⟨that, around, stand, thatEnclosed⟩ := nested.stand grounded
      obtain rfl : that = this := by
        have stands : top.current = some this := by
          simpa [Context.current, frames] using current
        exact Option.some.inj ((List.cons.inj stand).1.symm.trans stands)
      have formed : script.WellFormed := Script.wellFormed_of_finish source 0 accepted
      rw [enclosed.unique formed thatEnclosed]
      exact stand

/-- A break that says how many loops to leave, inside of branches and loops of the body of a
function, of a record's block or of the script itself: if there are so many loops, exactly the
innermost ones are left, and the context proceeds from the outermost of them, which no longer
has a cursor. The frames of the loops around stay as they are. If there are fewer loops in
this body, the break fails, whatever loops there are around the body. -/
theorem breaks_leave_loops_of_their_body {session : Session} (reached : session.Reached)
    (inTime : ({ session with now := session.now + 1 } : Session).isOverdue = none)
    {source : String} {script : Script} (accepted : Script.ofSource source = .ok script)
    {context : Context} {below : List Activation}
    (stack : session.stack = ⟨context, .resting⟩ :: below) (runs : context.script = script)
    {this : StatementRef} (current : context.current = some this) {count : Nat} {span : Span}
    (found : script.statement? this = some (.breakLoops count span)) (positive : 0 < count)
    {path : List StatementRef} (enclosed : script.Enclosed this path) :
    (count ≤ script.loops path →
      ∃ inner loop outer frame rest after, path = inner ++ loop :: outer ∧
        script.isLoop loop = true ∧ script.loops inner + 1 = count ∧
        frame :: rest <:+ context.frames ∧ Frame.Stand (frame :: rest) (loop :: outer) ∧
        session.advance =
          (.working,
            { session with
              now := session.now + 1
              stack := ⟨after, .resting⟩ :: below }) ∧
        after =
          (context.standing (some loop) ({ frame with iteration := none } :: rest)).proceed ∧
        Frame.Stand after.frames (script.after outer loop)) ∧
      (script.loops path < count →
        session.advance =
          { session with now := session.now + 1 }.raise
            (.placed
              (.jump (if script.loops path = 0 then .noBreakTarget
                else .tooFewCompounds (count - script.loops path)))
              span)
            ⟨{ context with frames := [] }, .resting⟩ below) := by
  obtain ⟨nested, stand⟩ :=
    reached.stand accepted (stack ▸ List.mem_cons_self) runs current enclosed
  subst runs
  have turn : session.advance =
      ({ session with now := session.now + 1 } : Session).settleStatement
        (context.beginStatement session.heap this (.breakLoops count span)) below := by
    unfold Session.advance
    simp only [stack]
    have inTime : ({ session with stack := ⟨context, .resting⟩ :: below, now := session.now + 1 } :
        Session).isOverdue = none := inTime
    simp only [inTime, beginNext, current, found]
  rw [turn]
  constructor
  · intro enough
    obtain ⟨inner, loop, outer, frame, rest, after, split, isLoop, counted, suffix, standing,
      answer, proceeds, goesOn⟩ := Context.breakOut_enclosed nested stand positive enough
    refine ⟨inner, loop, outer, frame, rest, after, split, isLoop, counted, suffix, standing, ?_,
      proceeds, goesOn⟩
    simp only [Context.beginStatement, answer, settleStatement]
  · intro few
    have answer := Context.breakOut_enclosed_few nested stand few
    simp only [Context.beginStatement, answer, settleStatement]

/-- The break of this script is inside of a branch in two loops and leaves both. -/
theorem break_leaves_two_loops :
    ∃ (session : Session) (script : Script) (context after : Context) (below : List Activation)
      (inner outer : List StatementRef) (loop : StatementRef), session.Reached ∧
      Script.ofSource "for x in \"a\"\nwhile True\nif True\nbreak 2\nend\nend\nend\n" = .ok script ∧
      session.stack = ⟨context, .resting⟩ :: below ∧ context.current = some ⟨0⟩ ∧
      script.Enclosed ⟨0⟩ [⟨1⟩, ⟨2⟩, ⟨3⟩] ∧ [⟨1⟩, ⟨2⟩, ⟨3⟩] = inner ++ loop :: outer ∧
      script.loops inner + 1 = 2 ∧
      session.advance =
        (.working,
          { session with
            now := session.now + 1
            stack := ⟨after, .resting⟩ :: below }) ∧
      Frame.Stand after.frames (script.after outer loop) := by
  have passed : ((Script.ofSource
      "for x in \"a\"\nwhile True\nif True\nbreak 2\nend\nend\nend\n").toOption.any fun script =>
        ((Session.new none).run script).toOption.any fun started =>
          (started.execute 9).2.begins fun script this =>
            this == ⟨0⟩ && script.first == some ⟨3⟩ &&
              script.statement? ⟨0⟩ == some (.breakLoops 2 ⟨32, 7⟩) &&
              script.statement? ⟨1⟩ == some (.branch [(⟨2⟩, some ⟨0⟩)] none) &&
              script.statement? ⟨2⟩ == some (.whileLoop ⟨1⟩ (some ⟨1⟩)) &&
              script.statement? ⟨3⟩ == some (.forLoop "x" ⟨0⟩ (some ⟨2⟩) ⟨0, 12⟩)) = true := by
    decide +kernel
  obtain ⟨script, started, accepted, begun, passed⟩ := eq_of_runs passed
  obtain ⟨context, below, this, stack, current, passed⟩ := eq_of_begins passed
  simp only [Bool.and_eq_true, beq_iff_eq] at passed
  obtain ⟨⟨⟨⟨⟨rfl, first⟩, breaks⟩, branch⟩, whileLoop⟩, forLoop⟩ := passed
  have keeps := (Ran.new.run accepted begun 9).keeps
  obtain ⟨source, member, own⟩ :=
    (keeps.attends.stack ⟨context, .resting⟩ (stack ▸ List.mem_cons_self)).1
  obtain rfl := List.mem_singleton.mp member
  have enclosed : context.script.Enclosed ⟨0⟩ [⟨1⟩, ⟨2⟩, ⟨3⟩] :=
    .inside branch trivial List.mem_cons_self (.here rfl)
      (.inside whileLoop trivial List.mem_cons_self (.here rfl)
        (.inside forLoop trivial List.mem_cons_self (.here rfl)
          (.outermost (.inl rfl) (.here first))))
  have loops : 2 ≤ context.script.loops [⟨1⟩, ⟨2⟩, ⟨3⟩] := by
    simp [Script.loops, Script.isLoop, branch, whileLoop, forLoop, Statement.isLoop]
  obtain ⟨inner, loop, outer, _, _, after, split, _, counted, _, _, turn, _, goesOn⟩ :=
    (breaks_leave_loops_of_their_body keeps.staged.reached
      (by simp only [isOverdue, keeps.unlimited]) own stack rfl current breaks (by decide)
      enclosed).1 loops
  exact ⟨_, _, context, after, below, inner, outer, loop, keeps.staged.reached, own, stack, current,
    enclosed, split, counted, turn, goesOn⟩

/-- The break of this script is in the block of a record that stands in the body of a loop. It
does not leave the loop but fails, and nothing behind the loop is run. -/
theorem break_in_block_leaves_no_loop :
    ∃ script started after,
      Script.ofSource "for x in [1]\nrecord r\nbreak\nend\nend\nprint \"after\"\n" = .ok script ∧
        script.first = some ⟨2⟩ ∧
        script.statement? ⟨2⟩ = some (.forLoop "x" ⟨1⟩ (some ⟨1⟩) ⟨0, 12⟩) ∧
        script.statement? ⟨1⟩ = some (.record "r" (some ⟨0⟩) ⟨13, 8⟩) ∧
        script.statement? ⟨0⟩ = some (.breakLoops 1 ⟨22, 5⟩) ∧
        (Session.new none).run script = .ok started ∧
        started.execute 50 = (.failed (.placed (.jump .noBreakTarget) ⟨22, 5⟩), after) ∧
        after.output = "" := by
  have passed : ((Script.ofSource
      "for x in [1]\nrecord r\nbreak\nend\nend\nprint \"after\"\n").toOption.any fun script =>
        script.first == some ⟨2⟩ &&
          script.statement? ⟨2⟩ == some (.forLoop "x" ⟨1⟩ (some ⟨1⟩) ⟨0, 12⟩) &&
          script.statement? ⟨1⟩ == some (.record "r" (some ⟨0⟩) ⟨13, 8⟩) &&
          script.statement? ⟨0⟩ == some (.breakLoops 1 ⟨22, 5⟩) &&
          ((Session.new none).run script).toOption.any fun started =>
            jumpFails (started.execute 50) .noBreakTarget ⟨22, 5⟩ fun after =>
              after.output == "") = true := by
    decide +kernel
  obtain ⟨script, accepted, passed⟩ := ok_of_any passed
  simp only [Bool.and_eq_true, beq_iff_eq] at passed
  obtain ⟨⟨⟨⟨first, forLoop⟩, record⟩, breaks⟩, passed⟩ := passed
  obtain ⟨started, begun, passed⟩ := ok_of_any passed
  obtain ⟨after, executed, output⟩ := eq_of_jumpFails passed
  exact ⟨script, started, after, accepted, first, forLoop, record, breaks, begun, executed,
    eq_of_beq output⟩

end Session

end ScriptEngine
