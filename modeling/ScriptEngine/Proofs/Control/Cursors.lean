import ScriptEngine.Proofs.Control.Nesting

/-!
# Cursors stay where they are

The cursor of a `for` loop is in the frame that stands on the loop. Going on behind a
statement, opening a body and going on with the next pass of an inner loop leave every
cursor in its place. Only a test of the loop moves its cursor, and only a jump out of the
loop takes it away.
-/

set_option autoImplicit false

namespace ScriptEngine

/-- What stands at a level if one more item is put on. -/
theorem getElem?_reverse_cons {α : Type} (top : α) (below : List α) (level : Nat) :
    (top :: below).reverse[level]? =
      if level = below.length then some top else below.reverse[level]? := by
  rw [List.reverse_cons]
  rcases Nat.lt_trichotomy level below.length with inside | rfl | outside
  · rw [List.getElem?_append_left (by simpa using inside), if_neg (Nat.ne_of_lt inside)]
  · simp
  · rw [if_neg (Nat.ne_of_gt outside), List.getElem?_eq_none (by simp; omega),
      List.getElem?_eq_none (by simp; omega)]

namespace Frame

/-- The cursor of the frame that has so many frames below it. -/
def cursorAt (frames : List Frame) (level : Nat) : Option Iteration :=
  frames.reverse[level]?.bind Frame.iteration

/-- Every cursor is still there, at the same level. -/
def CursorsStay (before after : List Frame) : Prop :=
  ∀ level cursor, cursorAt before level = some cursor → cursorAt after level = some cursor

theorem cursorAt_cons (top : Frame) (below : List Frame) (level : Nat) :
    cursorAt (top :: below) level =
      if level = below.length then top.iteration else cursorAt below level := by
  simp only [cursorAt, getElem?_reverse_cons]
  split <;> rfl

theorem level_of_cursorAt {frames : List Frame} {level : Nat} {cursor : Iteration}
    (found : cursorAt frames level = some cursor) : level < frames.length := by
  obtain ⟨frame, inside, _⟩ := Option.bind_eq_some_iff.mp found
  simpa using (List.getElem?_eq_some_iff.mp inside).1

theorem OldCursors.stay {before after : List Frame} (old : OldCursors before after) :
    CursorsStay after before := by
  intro level cursor found
  obtain ⟨frame, inside, held⟩ := Option.bind_eq_some_iff.mp found
  exact Option.bind_eq_some_iff.mpr ⟨frame, old level frame inside (by rw [held]; rfl), held⟩

namespace CursorsStay

theorem refl (frames : List Frame) : CursorsStay frames frames :=
  fun _ _ found => found

theorem trans {first second third : List Frame} (early : CursorsStay first second)
    (late : CursorsStay second third) : CursorsStay first third :=
  fun level cursor found => late level cursor (early level cursor found)

theorem push (top : Frame) (below : List Frame) : CursorsStay below (top :: below) := by
  intro level cursor found
  rw [cursorAt_cons, if_neg (Nat.ne_of_lt (level_of_cursorAt found))]
  exact found

/-- A frame without a cursor is left. -/
theorem pop {top : Frame} (idle : top.iteration = none) (below : List Frame) :
    CursorsStay (top :: below) below := by
  intro level cursor found
  rw [cursorAt_cons, idle] at found
  split at found
  · cases found
  · exact found

/-- A frame without a cursor goes on somehow. -/
theorem replaceTop {old : Frame} (idle : old.iteration = none) (new : Frame)
    (below : List Frame) : CursorsStay (old :: below) (new :: below) :=
  (pop idle below).trans (push new below)

end CursorsStay

variable {script : Script}

/-- Going on behind a statement that is no loop with a cursor leaves all cursors in place:
the frames that are left belong to branches. -/
theorem stay_leaveFinished {top : Frame} {rest : List Frame} (nested : Nested script (top :: rest))
    (idle : top.iteration = none) (next : Option StatementRef) :
    CursorsStay (top :: rest)
      (resumed (leaveFinished next (top :: rest)).1 (leaveFinished next (top :: rest)).2) := by
  cases next with
  | some following => exact .replaceTop idle _ rest
  | none =>
      induction rest generalizing top with
      | nil =>
          simp only [leaveFinished, nested.2.fallback]
          exact .pop idle []
      | cons lower rest ih =>
          obtain ⟨_, ⟨this, statement, _, _, current, found, _, _, _, attached⟩, below⟩ := nested
          have left := CursorsStay.pop idle (lower :: rest)
          cases statement with
          | branch branches otherwise =>
              have lowerIdle := below.seated.idle current found id
              simp only [leaveFinished, attached.1]
              cases script.next this with
              | some following => exact left.trans (.replaceTop lowerIdle _ rest)
              | none => exact left.trans (ih below lowerIdle)
          | whileLoop | forLoop =>
              have resumes : resumed (some this) (lower :: rest) = lower :: rest := by
                rw [← current]
                rfl
              simp only [leaveFinished, attached.1, resumes]
              exact left
          | _ => exact attached.elim

/-- The frames above the innermost loop belong to branches, and that of its body has no cursor. -/
theorem stay_findContinue {frames rest : List Frame} {target : StatementRef}
    (nested : Nested script frames) (idle : ∀ top ∈ frames.head?, top.iteration = none)
    (found : findContinue frames = some (target, rest)) : CursorsStay frames rest := by
  induction frames with
  | nil => cases found
  | cons top below ih =>
      have left := CursorsStay.pop (idle top rfl) below
      simp only [findContinue] at found
      cases continues : top.continueTarget with
      | some loop =>
          rw [continues] at found
          cases found
          exact left
      | none =>
          rw [continues] at found
          refine left.trans (ih nested.below (fun lower first => ?_) found)
          cases below with
          | nil => cases first
          | cons lower rest =>
              cases first
              obtain ⟨_, ⟨this, statement, _, _, current, found, _, _, _, attached⟩, below⟩ := nested
              cases statement with
              | branch branches otherwise => exact below.seated.idle current found id
              | whileLoop | forLoop =>
                  rw [attached.2.1] at continues
                  cases continues
              | _ => exact attached.elim

end Frame

namespace Context

variable {context : Context} (nested : Frame.Nested context.script context.frames)

include nested

/-- A context whose current statement is no loop with a cursor. -/
theorem stay_proceed (idle : context.iteration = none) :
    Frame.CursorsStay context.frames context.proceed.frames := by
  obtain ⟨kind, evaluation, frames, ownsNames, returnValue⟩ := context
  cases frames with
  | nil => exact fun level cursor found => nomatch found
  | cons top rest =>
      simp only [proceed, frames_resumeAt]
      exact Frame.stay_leaveFinished nested idle _

/-- The frame of a body is opened above a frame that stands on the compound. -/
theorem stay_enter {this : StatementRef} (current : context.current = some this)
    {statement : Statement} (found : context.script.statement? this = some statement)
    {body fallback continueTarget breakTarget : Option StatementRef}
    (attached : statement.Attaches context.script this
      ⟨body, fallback, continueTarget, breakTarget, none⟩) :
    Frame.CursorsStay context.frames
      (context.enter body fallback continueTarget breakTarget).frames := by
  obtain ⟨kind, evaluation, frames, ownsNames, returnValue⟩ := context
  cases frames with
  | nil => cases current
  | cons top rest =>
      have current : top.current = some this := current
      cases body with
      | some first =>
          rw [frames_enter_some]
          exact .push _ _
      | none =>
          rw [frames_enter_none]
          cases statement with
          | branch branches otherwise =>
              exact Frame.stay_leaveFinished nested (nested.seated.idle current found id) _
          | whileLoop | forLoop =>
              obtain ⟨rfl, _⟩ := attached
              have resumes : Frame.resumed (some this) (top :: rest) = top :: rest := by
                rw [← current]
                rfl
              simp only [Frame.leaveFinished, resumes]
              exact .refl _
          | _ => exact attached.elim

theorem stay_nextLoopPass (idle : context.iteration = none) {after : Context}
    (continued : context.nextLoopPass = (.ok (), after)) :
    Frame.CursorsStay context.frames after.frames := by
  unfold nextLoopPass at continued
  split at continued
  · next target rest found =>
      obtain ⟨_, resumes, _⟩ := Frame.nested_findContinue nested found
      obtain ⟨_, rfl⟩ := Prod.mk.inj continued
      rw [frames_resumeAt]
      dsimp only
      rw [resumes]
      refine Frame.stay_findContinue nested (fun top first => ?_) found
      rw [Context.iteration, first] at idle
      exact idle
  · cases continued

end Context

end ScriptEngine
