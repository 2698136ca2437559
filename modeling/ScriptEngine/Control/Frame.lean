import ScriptEngine.Script.Basic
import ScriptEngine.Value.Iteration

/-!
# Frames

The sequences of statements that a context is inside of, the innermost first,
and the three ways of leaving them: because they have come to their end, for the
next pass of a loop, or for what comes after a number of loops.
-/

set_option autoImplicit false

namespace ScriptEngine

/-- One sequence of statements that a context is inside of. -/
structure Frame where
  /-- The statement that runs, or that is inside of the frames above. -/
  current : Option StatementRef
  /-- Where the frame below goes on when this sequence has come to its end. -/
  fallback : Option StatementRef
  /-- The loop that the frame below tests again on `continue`. -/
  continueTarget : Option StatementRef
  /-- The loop that the frame below is done with on `break`. -/
  breakTarget : Option StatementRef
  /-- The cursor of the `for` loop that is the current statement. -/
  iteration : Option Iteration

namespace Frame

/-- Where to go on when `next` follows in the innermost frame: without a
statement to follow, the frame is left for its fallback, and so on. -/
def leaveFinished : Option StatementRef → List Frame → Option StatementRef × List Frame
  | none, frame :: rest => leaveFinished frame.fallback rest
  | next, frames => (next, frames)

/-- The nearest frame that has a continue target, looked for from the innermost
frame on: its target and the frames below it. -/
def findContinue : List Frame → Option (StatementRef × List Frame)
  | [] => none
  | frame :: rest =>
      match frame.continueTarget with
      | some target => some (target, rest)
      | none => findContinue rest

/-- Leaves frames until `count` of those left had a break target. Gives how many
such frames were missing, the last target met, and the frames that remain. -/
def leaveBreakable (target : Option StatementRef) :
    Nat → List Frame → Nat × Option StatementRef × List Frame
  | 0, frames => (0, target, frames)
  | count + 1, [] => (count + 1, target, [])
  | count + 1, frame :: rest =>
      match frame.breakTarget with
      | some found => leaveBreakable (some found) count rest
      | none => leaveBreakable target (count + 1) rest

end Frame

end ScriptEngine
