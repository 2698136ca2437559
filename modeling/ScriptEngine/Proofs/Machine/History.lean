import Mathlib
import ScriptEngine.Proofs.Machine.Nesting
import ScriptEngine.Proofs.Machine.Observed

/-!
# Cursors belong to the loop that made them

A history lists all sessions on the way to the newest one. It tells which loop made
the cursor of a frame: the statement on which the frame stood when the cursor came
to be. As long as the frame has the cursor it stands on this loop.
-/

set_option autoImplicit false

namespace ScriptEngine.Session

/-- The sessions that one session came from, itself first and a new one last. -/
inductive History : List Session → Prop where
  | new (timeLimit : Option Nat) : History [Session.new timeLimit]
  | operation {session after : Session} {past : List Session}
      (history : History (session :: past)) (operation : session.Operation after) :
      History (after :: session :: past)

/-- The frame that has so many contexts below its own and so many frames below it. -/
def frame? (session : Session) (depth level : Nat) : Option Frame :=
  session.stack.reverse[depth]?.bind fun activation => activation.context.frames.reverse[level]?

/-- The statement on which a frame stood when its cursor came to be. -/
def cursorMaker (depth level : Nat) : List Session → Option StatementRef
  | newest :: before :: past =>
      if (newest.frame? depth level).any fun frame => frame.iteration.isSome then
        (before.frame? depth level).bind fun frame =>
          if frame.iteration.isSome then cursorMaker depth level (before :: past)
          else frame.current
      else none
  | _ => none

theorem History.reached {newest : Session} {past : List Session}
    (history : History (newest :: past)) : newest.Reached := by
  generalize sessions : newest :: past = all at history
  induction history generalizing newest past with
  | new timeLimit =>
      obtain ⟨rfl, _⟩ := List.cons.inj sessions
      exact .new timeLimit
  | operation _ operation ih =>
      obtain ⟨rfl, _⟩ := List.cons.inj sessions
      exact .operation (ih rfl) operation

theorem Reached.history {session : Session} (reached : session.Reached) :
    ∃ past, History (session :: past) := by
  induction reached with
  | new timeLimit => exact ⟨[], .new timeLimit⟩
  | operation _ operation ih =>
      obtain ⟨past, history⟩ := ih
      exact ⟨_, history.operation operation⟩

end ScriptEngine.Session

namespace ScriptEngine

/-- Where a context comes from: it has just been opened, or it has moved. -/
theorem LocalInvariant.StackMoves.origin {invariant : LocalInvariant} (kept : invariant.Kept)
    {before after : List Activation} (moves : invariant.StackMoves before after) {depth : Nat}
    {activation : Activation} (found : after.reverse[depth]? = some activation) :
    invariant.Fresh activation.context.frames ∨
      ∃ old, before.reverse[depth]? = some old ∧
        invariant.Moves old.context.frames activation.context.frames := by
  cases moves with
  | replaces popped opened below fresh =>
      cases below with
      | nil =>
          rw [List.append_nil] at found
          exact .inl (fresh activation (List.mem_reverse.mp (List.mem_of_getElem? found)))
      | cons same below =>
          rcases Frame.level_cases popped opened below same same found with
            member | ⟨rfl, stays⟩ | stays
          · exact .inl (fresh activation member)
          · exact .inr ⟨_, stays, kept.stays _⟩
          · exact .inr ⟨_, stays, kept.stays _⟩
  | moves popped opened below old new moves fresh =>
      rcases Frame.level_cases popped opened below old new found with
        member | ⟨rfl, stands⟩ | stays
      · exact .inl (fresh activation member)
      · exact .inr ⟨old, stands, moves⟩
      · exact .inr ⟨_, stays, kept.stays _⟩

namespace Session

/-- A frame with a cursor was there before, and stood on the same statement. -/
private theorem Operation.frame? {before after : Session} (operation : before.Operation after)
    (fine : nesting.SessionFine before) {depth level : Nat} {frame : Frame}
    (found : after.frame? depth level = some frame) (cursor : frame.iteration.isSome) :
    ∃ old, before.frame? depth level = some old ∧ old.current = frame.current := by
  obtain ⟨activation, place, inner⟩ := Option.bind_eq_some_iff.mp found
  have moves := (LocalInvariant.operation_fine Nesting.kept operation fine).2
  rcases moves.origin Nesting.kept place with fresh | ⟨old, oldPlace, keeps⟩
  · rw [fresh frame (List.mem_reverse.mp (List.mem_of_getElem? inner))] at cursor
    cases cursor
  · obtain ⟨below, belowInner, same⟩ := keeps level frame inner cursor
    exact ⟨below, Option.bind_eq_some_iff.mpr ⟨old, oldPlace, belowInner⟩, same⟩

/-- A frame with a cursor stands on the statement that made the cursor. -/
theorem History.cursorMaker_eq {newest : Session} {past : List Session}
    (history : History (newest :: past)) {depth level : Nat} {frame : Frame}
    (found : newest.frame? depth level = some frame) (cursor : frame.iteration.isSome) :
    cursorMaker depth level (newest :: past) = frame.current := by
  generalize sessions : newest :: past = all at history ⊢
  induction history generalizing newest past frame with
  | new timeLimit =>
      obtain ⟨rfl, _⟩ := List.cons.inj sessions
      cases found
  | operation history operation ih =>
      obtain ⟨rfl, _⟩ := List.cons.inj sessions
      obtain ⟨old, before, same⟩ :=
        operation.frame? (LocalInvariant.reached_fine Nesting.kept history.reached) found cursor
      simp only [cursorMaker, found, before, Option.any_some, cursor, if_true, Option.bind_some]
      split
      · next oldCursor => exact (ih before oldCursor rfl).trans same
      · exact same

/-- In every session that a host can reach, each context knows statements of its own
script only, its frames nest like the bodies of the statements that they stand on,
and a frame that has a cursor stands on the `for` loop that made the cursor. -/
theorem History.frames_nested {newest : Session} {past : List Session}
    (history : History (newest :: past)) :
    (∀ activation ∈ newest.stack,
      Frame.Nested activation.context.script activation.context.frames ∧
        ∀ frame ∈ activation.context.frames, ∀ statement, some statement ∈ frame.statements →
          statement.index < activation.context.script.statements.size) ∧
      ∀ depth level activation frame, newest.stack.reverse[depth]? = some activation →
        activation.context.frames.reverse[level]? = some frame → frame.iteration.isSome →
        ∃ loop item iterable body span,
          frame.current = some loop ∧
            activation.context.script.statement? loop = some (.forLoop item iterable body span) ∧
            cursorMaker depth level (newest :: past) = some loop := by
  have fine := LocalInvariant.reached_fine Nesting.kept history.reached
  refine ⟨?_, ?_⟩
  · intro activation member
    obtain ⟨linked, nested, _⟩ := fine.stack activation member
    exact ⟨nested, nested.statements_lt linked⟩
  · intro depth level activation frame place inner cursor
    have member := List.mem_reverse.mp (List.mem_of_getElem? place)
    obtain ⟨_, nested, _⟩ := fine.stack activation member
    obtain ⟨loop, statement, current, found, loops⟩ :=
      nested.seated_of_mem frame (List.mem_reverse.mp (List.mem_of_getElem? inner))
    have made := history.cursorMaker_eq (Option.bind_eq_some_iff.mpr ⟨activation, place, inner⟩)
      cursor
    cases statement with
    | forLoop item iterable body span =>
        exact ⟨loop, item, iterable, body, span, current, found, made.trans current⟩
    | _ => exact (loops cursor).elim

/-- The loop of this script has a cursor after three turns. -/
theorem frames_nested_in_loop :
    ∃ (newest : Session) (past : List Session), History (newest :: past) ∧
      ∃ activation frame, newest.stack.reverse[0]? = some activation ∧
        activation.context.frames.reverse[0]? = some frame ∧ frame.iteration.isSome ∧
        Frame.Nested activation.context.script activation.context.frames ∧
        ∃ loop item iterable body span,
          frame.current = some loop ∧
            activation.context.script.statement? loop = some (.forLoop item iterable body span) ∧
            cursorMaker 0 0 (newest :: past) = some loop := by
  have passed : ((Script.ofSource "for x in \"a\"\nend\n").toOption.any fun script =>
      ((Session.new none).run script).toOption.any fun started =>
        (started.advance.2.advance.2.advance.2.frame? 0 0).any fun frame =>
          frame.iteration.isSome) = true := by cbv
  obtain ⟨script, started, accepted, begun, passed⟩ := eq_of_runs passed
  obtain ⟨frame, found, cursor⟩ := (Option.any_eq_true _ _).mp passed
  obtain ⟨activation, place, inner⟩ := Option.bind_eq_some_iff.mp found
  have first := (History.new none).operation (.run (Script.parsed_ofSource accepted) begun)
  have history := ((first.operation (.advance _)).operation (.advance _)).operation (.advance _)
  obtain ⟨contexts, cursors⟩ := history.frames_nested
  exact ⟨_, _, history, activation, frame, place, inner, cursor,
    (contexts activation (List.mem_reverse.mp (List.mem_of_getElem? place))).1,
    cursors 0 0 activation frame place inner cursor⟩

end Session

end ScriptEngine
