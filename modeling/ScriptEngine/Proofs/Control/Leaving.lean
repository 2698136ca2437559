import ScriptEngine.Control.Context
import ScriptEngine.Proofs.Recursive.Statement

/-!
# Where a context goes on

What the end of a statement means for the frames of its context, and how frames
that have been opened for a body are left again.
-/

set_option autoImplicit false

namespace ScriptEngine

/-- The first frame of a context. -/
def Frame.entry (head : Option StatementRef) : Frame :=
  ⟨head, none, none, none, none⟩

/-- The frame of a loop's body. -/
def Frame.ofLoop (loop : StatementRef) (head : Option StatementRef) : Frame :=
  ⟨head, some loop, some loop, some loop, none⟩

/-- So many of the frames belong to the body of a loop. -/
def Frame.Around : List Frame → Nat → Prop
  | [], loops => loops = 0
  | frame :: rest, loops =>
      (frame.continueTarget = none ∧ frame.breakTarget = none ∧ Around rest loops) ∨
        ∃ loop outer, frame.continueTarget = some loop ∧ frame.breakTarget = some loop ∧
          loops = outer + 1 ∧ Around rest outer

namespace Frame

variable {frames : List Frame} {loops : Nat}

theorem leaveBreakable_missing (around : Around frames loops) (target : Option StatementRef)
    (count : Nat) : (leaveBreakable target count frames).1 = count - loops := by
  induction frames generalizing target count loops with
  | nil =>
      obtain rfl := around
      cases count <;> rfl
  | cons frame rest ih =>
      cases count with
      | zero => simp [leaveBreakable]
      | succ count =>
          rcases around with ⟨_, plain, around⟩ | ⟨loop, outer, _, breaks, rfl, around⟩
          · simp only [leaveBreakable, plain]
            exact ih around target (count + 1)
          · simp only [leaveBreakable, breaks]
            rw [ih around (some loop) count]
            omega

private theorem leaveBreakable_some (frames : List Frame) (target : StatementRef) (count : Nat) :
    (leaveBreakable (some target) count frames).2.1.isSome := by
  induction frames generalizing target count with
  | nil => cases count <;> rfl
  | cons frame rest ih =>
      cases count with
      | zero => rfl
      | succ count =>
          simp only [leaveBreakable]
          split
          · next found _ => exact ih found count
          · exact ih target (count + 1)

theorem leaveBreakable_met (around : Around frames loops) (count : Nat) :
    (leaveBreakable none (count + 1) frames).2.1.isSome = decide (0 < loops) := by
  induction frames generalizing loops with
  | nil =>
      obtain rfl := around
      rfl
  | cons frame rest ih =>
      rcases around with ⟨_, plain, around⟩ | ⟨loop, outer, _, breaks, rfl, around⟩
      · simp only [leaveBreakable, plain]
        exact ih around
      · simp only [leaveBreakable, breaks]
        rw [leaveBreakable_some rest loop count]
        simp

/-- If there are enough loops, it does not matter which target was met before. -/
theorem leaveBreakable_target (around : Around frames loops) {count : Nat} (enough : count < loops)
    (first second : Option StatementRef) :
    leaveBreakable first (count + 1) frames = leaveBreakable second (count + 1) frames := by
  induction frames generalizing loops with
  | nil => exact absurd around (Nat.ne_zero_of_lt enough)
  | cons frame rest ih =>
      rcases around with ⟨_, plain, around⟩ | ⟨loop, outer, _, breaks, rfl, around⟩
      · simp only [leaveBreakable, plain]
        exact ih around enough
      · simp only [leaveBreakable, breaks]

theorem findContinue_around (around : Around frames loops) :
    (findContinue frames).isSome = decide (0 < loops) := by
  induction frames generalizing loops with
  | nil =>
      obtain rfl := around
      rfl
  | cons frame rest ih =>
      rcases around with ⟨plain, _, around⟩ | ⟨loop, outer, continues, _, rfl, around⟩
      · simp only [findContinue, plain]
        exact ih around
      · simp [findContinue, continues]

end Frame

namespace Context

variable (context : Context) {loops : Nat}

/-- Lets a statement follow in the innermost frame, leaving every frame whose
sequence has come to its end. -/
def goTo (following : Option StatementRef) : Context :=
  let (statement, frames) := Frame.leaveFinished following context.frames
  { context with frames }.resumeAt statement

theorem proceed_eq :
    context.proceed = context.goTo (context.current.bind context.script.next) := rfl

theorem breakOut_answer (around : Frame.Around context.frames loops) (count : Nat) :
    (context.breakOut count).1 =
      if count = 0 then .error .invalidBreakCount
      else if loops = 0 then .error .noBreakTarget
      else if loops < count then .error (.tooFewCompounds (count - loops))
      else .ok () := by
  cases count with
  | zero => rfl
  | succ count =>
      have missing := Frame.leaveBreakable_missing around none (count + 1)
      have met := Frame.leaveBreakable_met around count
      simp only [breakOut, Nat.add_one_ne_zero, if_false]
      generalize Frame.leaveBreakable none (count + 1) context.frames = left at missing met
      obtain ⟨few, target, frames⟩ := left
      obtain rfl : few = count + 1 - loops := missing
      cases target with
      | none =>
          have none : loops = 0 := by simpa using met
          simp [none]
      | some loop =>
          have some : loops ≠ 0 := by
            have positive : 0 < loops := by simpa using met
            omega
          simp only [some, if_false]
          by_cases enough : loops < count + 1
          · rw [if_neg (by omega), if_pos enough]
          · rw [if_pos (by omega), if_neg enough]

theorem nextLoopPass_answer (around : Frame.Around context.frames loops) :
    context.nextLoopPass.1 = if loops = 0 then .error .noContinueTarget else .ok () := by
  have found := Frame.findContinue_around around
  unfold nextLoopPass
  cases continues : Frame.findContinue context.frames with
  | none =>
      have none : loops = 0 := by simpa [continues] using found
      simp [none]
  | some target =>
      have some : 0 < loops := by simpa [continues] using found
      simp [Nat.ne_of_gt some]

end Context

namespace Exit

/-- Where a context goes on when a statement has ended. -/
def settle (context : Context) : Exit → Context
  | .normal => context.proceed
  | .leaving more => (context.breakOut (more + 1)).2
  | .continuing => context.nextLoopPass.2
  | .returned value => context.returnWith value

/-- Where a context goes on when the sequence of its innermost frame has ended. -/
def settleBlock (context : Context) : Exit → Context
  | .normal => context.goTo none
  | exit => exit.settle context

/-- A statement inside of so many loops may end in this way. -/
def Within (loops : Nat) : Exit → Prop
  | .leaving more => more < loops
  | .continuing => 0 < loops
  | _ => True

end Exit

/-- What stays the same about a context while it runs. -/
structure Scope where
  kind : ContextKind
  script : Script
  chain : ScopeChain
  ownsNames : Bool

namespace Scope

variable (scope : Scope)

/-- A context between two statements. -/
def context (frames : List Frame) : Context :=
  ⟨scope.kind, Evaluation.new scope.script scope.chain, frames, scope.ownsNames, none⟩

/-- A context that has ended with a value. -/
def ended (value : Value) : Context :=
  { scope.context [] with returnValue := some value }

theorem enter_eq (frames : List Frame) (head fallback continueTarget breakTarget : Option StatementRef) :
    (scope.context frames).enter head fallback continueTarget breakTarget =
      (scope.context (⟨head, fallback, continueTarget, breakTarget, none⟩ :: frames)).goTo head := by
  cases head <;> rfl

theorem enter_entry (head : Option StatementRef) :
    (scope.context []).enter head none none none =
      (scope.context [Frame.entry head]).goTo head :=
  scope.enter_eq [] head none none none

theorem enterLoopBody_eq (frames : List Frame) (loop : StatementRef) (head : Option StatementRef) :
    (scope.context frames).enterLoopBody loop head =
      (scope.context (Frame.ofLoop loop head :: frames)).goTo head :=
  scope.enter_eq frames head (some loop) (some loop) (some loop)

theorem goTo_cons (frame : Frame) (current following : Option StatementRef) (rest : List Frame) :
    (scope.context ({ frame with current } :: rest)).goTo following =
      (scope.context (frame :: rest)).goTo following := by
  cases following <;> rfl

theorem goTo_some (frame : Frame) (following : StatementRef) (rest : List Frame) :
    (scope.context (frame :: rest)).goTo (some following) =
      scope.context ({ frame with current := some following } :: rest) := rfl

theorem goTo_none (frame : Frame) (rest : List Frame) :
    (scope.context (frame :: rest)).goTo none = (scope.context rest).goTo frame.fallback := rfl

/-- Only what frames are left matters for where breaking out goes on. -/
theorem breakOut_congr {first second : List Frame} {more fewer : Nat}
    (same : Frame.leaveBreakable none (more + 1) first =
      Frame.leaveBreakable none (fewer + 1) second) :
    ((scope.context first).breakOut (more + 1)).2 =
      ((scope.context second).breakOut (fewer + 1)).2 := by
  simp only [context, Context.breakOut, Nat.add_one_ne_zero, if_false, same]
  rfl

end Scope

namespace Exit

variable (scope : Scope)

theorem settle_cons {exit : Exit} (abrupt : exit ≠ .normal) (first second : Frame)
    (continueTarget : first.continueTarget = second.continueTarget)
    (breakTarget : first.breakTarget = second.breakTarget) (rest : List Frame) :
    exit.settle (scope.context (first :: rest)) = exit.settle (scope.context (second :: rest)) := by
  cases exit with
  | normal => exact absurd rfl abrupt
  | leaving more =>
      exact scope.breakOut_congr (by simp only [Frame.leaveBreakable, breakTarget])
  | continuing =>
      simp only [settle, Scope.context, Context.nextLoopPass, Frame.findContinue, continueTarget]
  | returned value => rfl

theorem settle_plain {exit : Exit} (abrupt : exit ≠ .normal) {frame : Frame}
    (continueTarget : frame.continueTarget = none) (breakTarget : frame.breakTarget = none)
    (rest : List Frame) :
    exit.settle (scope.context (frame :: rest)) = exit.settle (scope.context rest) := by
  cases exit with
  | normal => exact absurd rfl abrupt
  | leaving more =>
      exact scope.breakOut_congr (by simp only [Frame.leaveBreakable, breakTarget])
  | continuing =>
      simp only [settle, Scope.context, Context.nextLoopPass, Frame.findContinue, continueTarget]
  | returned value => rfl

/-- What the end of a loop's body means for the context: the loop has its next pass,
or it is left. -/
theorem settle_loop {exit : Exit} {body loop : Frame} {this : StatementRef} {rest : List Frame}
    {loops : Nat} (around : Frame.Around (loop :: rest) loops) (within : exit.Within (loops + 1))
    (current : loop.current = some this) (fallback : body.fallback = some this)
    (continueTarget : body.continueTarget = some this) (breakTarget : body.breakTarget = some this) :
    exit.settleBlock (scope.context (body :: loop :: rest)) =
      match exit.afterPass with
      | none => scope.context (loop :: rest)
      | some outer => outer.settle (scope.context ({ loop with iteration := none } :: rest)) := by
  have stands : { loop with current := some this } = loop := by rw [← current]
  have resumed : (scope.context (loop :: rest)).goTo (some this) = scope.context (loop :: rest) := by
    rw [Scope.goTo_some, stands]
  cases exit with
  | normal =>
      simp only [settleBlock, afterPass, Scope.goTo_none, fallback]
      exact resumed
  | continuing =>
      simp only [settleBlock, settle, afterPass, Scope.context, Context.nextLoopPass,
        Frame.findContinue, continueTarget]
      exact resumed
  | leaving more =>
      cases more with
      | zero =>
          simp only [settleBlock, settle, afterPass, Scope.context, Context.breakOut,
            Frame.leaveBreakable, breakTarget, Nat.add_one_ne_zero, if_false, if_true]
          have resumed : Context.resumeAt (scope.context (loop :: rest)) (some this) =
              scope.context (loop :: rest) := resumed
          exact congrArg (fun context => (Context.setIteration context none).proceed) resumed
      | succ more =>
          have enough : more < loops := Nat.lt_of_succ_lt_succ within
          have left : Frame.leaveBreakable none (more + 2) (body :: loop :: rest) =
              Frame.leaveBreakable none (more + 1) ({ loop with iteration := none } :: rest) := by
            rw [Frame.leaveBreakable, breakTarget]
            exact Frame.leaveBreakable_target around enough (some this) none
          exact scope.breakOut_congr left
  | returned value => rfl

end Exit

end ScriptEngine
