import ScriptEngine.Grammar.Statement
import ScriptEngine.Session.Host

/-!
# Observations of runs

Numbers are binary floating point numbers, so whether two sessions are the same cannot
be computed. What can be computed of a run is a test of it: whether an operation
returns something, and what its output is. A test that a run passes gives the equations
the run was computed with.
-/

set_option autoImplicit false

namespace ScriptEngine

theorem ok_of_any {ε α : Type} {answer : Except ε α} {test : α → Bool}
    (passed : answer.toOption.any test = true) :
    ∃ value, answer = .ok value ∧ test value = true := by
  cases answer with
  | error _ => cases passed
  | ok value => exact ⟨value, rfl, passed⟩

def Value.isText (value : Value) (expected : String) : Bool :=
  match value with
  | text given => given == expected
  | _ => false

theorem Value.eq_of_isText {value : Value} {expected : String}
    (passed : value.isText expected = true) : value = .text expected := by
  cases value with
  | text given => exact congrArg Value.text (eq_of_beq passed)
  | _ => cases passed

namespace Session

/-- The operation returns something that passes the test. -/
def returns {α : Type} (outcome : Answer α × Session) (test : α → Session → Bool) : Bool :=
  match outcome with
  | (.value value, after) => test value after
  | _ => false

/-- The operation fails, and what it leaves passes the test. -/
def fails {α : Type} (outcome : Answer α × Session) (test : Session → Bool) : Bool :=
  match outcome with
  | (.failed _, after) => test after
  | _ => false

/-- The operation fails with an error that has this place. -/
def failsIn {α : Type} (outcome : Answer α × Session) (place : Span) : Bool :=
  match outcome with
  | (.failed failure, _) => failure.span == some place
  | _ => false

/-- Within so many turns, the session comes to one that goes on forever. -/
def hangs : Nat → Session → Bool
  | 0, _ => false
  | turns + 1, session =>
      session.state = .running &&
        match session.advance with
        | (.working, next) => hangs turns next
        | (.endless, _) => true
        | _ => false

/-- The next turn opens the block of a record with this name. -/
def opensRecord (session : Session) (expected : String) : Bool :=
  match session.stack with
  | ⟨context, .resting⟩ :: _ =>
      context.current.any fun this =>
        match context.script.statement? this with
        | some (.record name _ _) => name == expected
        | _ => false
  | _ => false

section

variable {α : Type} {outcome : Answer α × Session} {session : Session}

theorem eq_of_returns {test : α → Session → Bool} (passed : returns outcome test = true) :
    ∃ value after, outcome = (.value value, after) ∧ test value after = true := by
  obtain ⟨answer, after⟩ := outcome
  cases answer with
  | value value => exact ⟨value, after, rfl, passed⟩
  | failed | unfinished => cases passed

theorem eq_of_fails {test : Session → Bool} (passed : fails outcome test = true) :
    ∃ failure after, outcome = (.failed failure, after) ∧ test after = true := by
  obtain ⟨answer, after⟩ := outcome
  cases answer with
  | failed failure => exact ⟨failure, after, rfl, passed⟩
  | value | unfinished => cases passed

theorem eq_of_failsIn {place : Span} (passed : failsIn outcome place = true) :
    ∃ failure after, outcome = (.failed failure, after) ∧ failure.span = some place := by
  obtain ⟨answer, after⟩ := outcome
  cases answer with
  | failed failure => exact ⟨failure, after, rfl, eq_of_beq passed⟩
  | value | unfinished => cases passed

/-- Nobody waits long enough for a script that comes to a turn without end. -/
theorem unfinished_of_hangs {bound : Nat} {session : Session} (hanging : hangs bound session = true)
    (turns : Nat) : (execute turns session).1 = .unfinished := by
  induction bound generalizing session turns with
  | zero => cases hanging
  | succ bound ih =>
      simp only [hangs, Bool.and_eq_true, decide_eq_true_eq] at hanging
      obtain ⟨running, rest⟩ := hanging
      cases turns with
      | zero => rfl
      | succ turns =>
          simp only [execute, running, ne_eq, not_true, decide_false, Bool.and_false]
          rcases turn : session.advance with ⟨progress, next⟩
          rw [turn] at rest
          cases progress with
          | idle | failed => cases rest
          | endless => rfl
          | working => exact ih rest turns

theorem eq_of_opensRecord {name : String} (passed : session.opensRecord name = true) :
    ∃ context below this body span, session.stack = ⟨context, .resting⟩ :: below ∧
      context.current = some this ∧
      context.script.statement? this = some (.record name body span) := by
  unfold opensRecord at passed
  split at passed
  · next context below stack =>
      obtain ⟨this, current, passed⟩ := (Option.any_eq_true _ _).mp passed
      split at passed
      · next body span found =>
          obtain rfl := eq_of_beq passed
          exact ⟨context, below, this, body, span, stack, current, found⟩
      · cases passed
  · cases passed

/-- A test of the session as it begins to run a source text. The test does not speak of the
script. -/
theorem eq_of_runs {source : String} {test : Session → Bool}
    (passed : ((Script.ofSource source).toOption.any fun script =>
      (session.run script).toOption.any test) = true) :
    ∃ script started, Script.ofSource source = .ok script ∧ session.run script = .ok started ∧
      test started = true := by
  obtain ⟨script, accepted, passed⟩ := ok_of_any passed
  obtain ⟨started, begun, passed⟩ := ok_of_any passed
  exact ⟨script, started, accepted, begun, passed⟩

end

end Session

end ScriptEngine
