import ScriptEngine.Proofs.Control.Scope
import ScriptEngine.Proofs.Script.Rooted

/-!
# Frames nest like the bodies of statements

The frames of a context follow the statements that it is inside of: a frame stands
on the statement whose body the frame above runs, and the frame above knows where
to go on because of that statement. Only a frame that stands on a `for` loop keeps
a cursor. Everything that control flow does to frames keeps it that way.
-/

set_option autoImplicit false

namespace ScriptEngine

/-- Following the links of a sequence from its head comes to the statement. -/
inductive Script.Chain (script : Script) (head : Option StatementRef) : StatementRef → Prop where
  | here {this : StatementRef} (first : head = some this) : Script.Chain script head this
  | later {this following : StatementRef} (chain : Script.Chain script head this)
      (next : script.next this = some following) : Script.Chain script head following

/-- The statement is a loop over a value. -/
def Statement.IsFor : Statement → Prop
  | .forLoop .. => True
  | _ => False

/-- What the frame of a body knows about the compound that it belongs to: where to
go on behind it, and which loop `continue` and `break` are about. -/
def Statement.Attaches (script : Script) (this : StatementRef) : Statement → Frame → Prop
  | .branch _ _, body =>
      body.fallback = script.next this ∧ body.continueTarget = none ∧ body.breakTarget = none
  | .whileLoop _ _, body =>
      body.fallback = some this ∧ body.continueTarget = some this ∧ body.breakTarget = some this
  | .forLoop _ _ _ _, body =>
      body.fallback = some this ∧ body.continueTarget = some this ∧ body.breakTarget = some this
  | _, _ => False

namespace Frame

/-- The frame stands on a statement of the script, and keeps a cursor only if this
is a loop over a value. -/
def Seated (script : Script) (frame : Frame) : Prop :=
  ∃ this statement, frame.current = some this ∧ script.statement? this = some statement ∧
    (frame.iteration.isSome → statement.IsFor)

/-- The upper frame runs a body of the statement that the lower frame stands on. -/
def Within (script : Script) (upper lower : Frame) : Prop :=
  ∃ this statement head current, lower.current = some this ∧
    script.statement? this = some statement ∧ head ∈ statement.heads ∧
    upper.current = some current ∧ script.Chain head current ∧ statement.Attaches script this upper

/-- The frame belongs to no compound. -/
structure Bare (frame : Frame) : Prop where
  fallback : frame.fallback = none
  continueTarget : frame.continueTarget = none
  breakTarget : frame.breakTarget = none

/-- The frames, innermost first, nest like the bodies of statements. -/
def Nested (script : Script) : List Frame → Prop
  | [] => True
  | [bottom] => bottom.Seated script ∧ bottom.Bare
  | upper :: lower :: rest =>
      upper.Seated script ∧ upper.Within script lower ∧ Nested script (lower :: rest)

/-- Every frame that has a cursor was there before, at the same level. -/
def OldCursors (before after : List Frame) : Prop :=
  ∀ (level : Nat) (frame : Frame), after.reverse[level]? = some frame → frame.iteration.isSome →
    before.reverse[level]? = some frame

/-- Every cursor is in a frame that was there before, at the same level and on the
same statement. -/
def KeepsCursors (before after : List Frame) : Prop :=
  ∀ (level : Nat) (frame : Frame), after.reverse[level]? = some frame → frame.iteration.isSome →
    ∃ old, before.reverse[level]? = some old ∧ old.current = frame.current

/-- No frame has a cursor. -/
def Fresh (frames : List Frame) : Prop :=
  ∀ frame ∈ frames, frame.iteration = none

theorem OldCursors.refl (frames : List Frame) : OldCursors frames frames :=
  fun _ _ found _ => found

theorem OldCursors.nil (frames : List Frame) : OldCursors frames [] := by
  intro level frame found
  cases found

theorem OldCursors.trans {first second third : List Frame} (early : OldCursors first second)
    (late : OldCursors second third) : OldCursors first third :=
  fun level frame found cursor => early level frame (late level frame found cursor) cursor

theorem OldCursors.keeps {before after : List Frame} (old : OldCursors before after) :
    KeepsCursors before after :=
  fun level frame found cursor => ⟨frame, old level frame found cursor, rfl⟩

theorem KeepsCursors.then {first second third : List Frame} (early : KeepsCursors first second)
    (late : OldCursors second third) : KeepsCursors first third :=
  fun level frame found cursor => early level frame (late level frame found cursor) cursor

/-- What stands at a level after items have been taken off and put on. -/
theorem level_cases {α : Type} (popped opened below : List α) (old new : α) {level : Nat} {item : α}
    (found : (opened ++ new :: below).reverse[level]? = some item) :
    item ∈ opened ∨ (item = new ∧ (popped ++ old :: below).reverse[level]? = some old) ∨
      (popped ++ old :: below).reverse[level]? = some item := by
  rw [List.reverse_append, List.reverse_cons, List.append_assoc] at found ⊢
  rcases Nat.lt_or_ge level below.reverse.length with inside | outside
  · rw [List.getElem?_append_left inside] at found ⊢
    exact .inr (.inr found)
  · rw [List.getElem?_append_right outside] at found ⊢
    cases position : level - below.reverse.length with
    | zero =>
        rw [position] at found
        cases found
        exact .inr (.inl ⟨rfl, rfl⟩)
    | succ above =>
        rw [position] at found
        have foundOpened : opened.reverse[above]? = some item := found
        exact .inl (List.mem_reverse.mp (List.mem_of_getElem? foundOpened))

/-- Frames are left, the next one goes on, and frames without cursors are opened. -/
theorem OldCursors.replace {old new : Frame} (popped opened below : List Frame)
    (same : new.iteration.isSome → old = new) (fresh : Fresh opened) :
    OldCursors (popped ++ old :: below) (opened ++ new :: below) := by
  intro level frame found cursor
  rcases level_cases popped opened below old new found with member | ⟨rfl, stands⟩ | stands
  · rw [fresh frame member] at cursor
    cases cursor
  · rw [← same cursor]
    exact stands
  · exact stands

theorem OldCursors.pop (top : Frame) (below : List Frame) : OldCursors (top :: below) below := by
  cases below with
  | nil => exact .nil _
  | cons lower rest =>
      exact .replace [top] [] rest (fun _ => rfl) (List.forall_mem_nil _)

/-- A frame that goes on with the same statement may come to have a cursor. -/
theorem KeepsCursors.replaceTop {old new : Frame} (below : List Frame)
    (same : old.current = new.current) : KeepsCursors (old :: below) (new :: below) := by
  intro level frame found cursor
  rcases level_cases [] [] below old new found with
    member | ⟨rfl, stands⟩ | stands
  · cases member
  · exact ⟨old, stands, same⟩
  · exact ⟨frame, stands, rfl⟩

theorem Seated.idle {script : Script} {frame : Frame} (seated : frame.Seated script)
    {this : StatementRef} (current : frame.current = some this) {statement : Statement}
    (found : script.statement? this = some statement) (other : ¬statement.IsFor) :
    frame.iteration = none := by
  obtain ⟨that, stands, same, standsFound, cursor⟩ := seated
  obtain rfl := Option.some.inj (current.symm.trans same)
  obtain rfl := Option.some.inj (found.symm.trans standsFound)
  cases iteration : frame.iteration with
  | none => rfl
  | some value => exact (other (cursor (by rw [iteration]; rfl))).elim

theorem Nested.seated {script : Script} {top : Frame} {rest : List Frame}
    (nested : Nested script (top :: rest)) : top.Seated script := by
  cases rest with
  | nil => exact nested.1
  | cons lower rest => exact nested.1

theorem Nested.below {script : Script} {top : Frame} {rest : List Frame}
    (nested : Nested script (top :: rest)) : Nested script rest := by
  cases rest with
  | nil => trivial
  | cons lower rest => exact nested.2.2

theorem Nested.seated_of_mem {script : Script} {frames : List Frame}
    (nested : Nested script frames) : ∀ frame ∈ frames, frame.Seated script := by
  induction frames with
  | nil => exact List.forall_mem_nil _
  | cons top rest ih => exact List.forall_mem_cons.mpr ⟨nested.seated, ih nested.below⟩

/-- Changing the top frame is all right if it stays attached to the frame below. -/
theorem Nested.replaceTop {script : Script} {old new : Frame} {rest : List Frame}
    (nested : Nested script (old :: rest)) (seated : new.Seated script)
    (fallback : new.fallback = old.fallback) (continueTarget : new.continueTarget = old.continueTarget)
    (breakTarget : new.breakTarget = old.breakTarget)
    (chain : ∀ head current, old.current = some current → script.Chain head current →
      ∃ following, new.current = some following ∧ script.Chain head following) :
    Nested script (new :: rest) := by
  cases rest with
  | nil =>
      obtain ⟨_, bare⟩ := nested
      exact ⟨seated, fallback.trans bare.fallback, continueTarget.trans bare.continueTarget,
        breakTarget.trans bare.breakTarget⟩
  | cons lower rest =>
      obtain ⟨_, ⟨this, statement, head, current, lowerCurrent, found, member, oldCurrent, chained,
        attached⟩, below⟩ := nested
      obtain ⟨following, newCurrent, newChained⟩ := chain head current oldCurrent chained
      refine ⟨seated, ⟨this, statement, head, following, lowerCurrent, found, member, newCurrent,
        newChained, ?_⟩, below⟩
      cases statement with
      | branch | whileLoop | forLoop =>
          exact ⟨fallback.trans attached.1, continueTarget.trans attached.2.1,
            breakTarget.trans attached.2.2⟩
      | _ => exact attached.elim

end Frame

theorem Script.statement?_of_lt {script : Script} {this : StatementRef}
    (present : this.index < script.statements.size) :
    ∃ statement, script.statement? this = some statement := by
  simp [Script.statement?, present]

theorem Script.statement?_lt {script : Script} {this : StatementRef} {statement : Statement}
    (found : script.statement? this = some statement) : this.index < script.statements.size := by
  obtain ⟨slot, present, _⟩ := Option.map_eq_some_iff.mp found
  exact (Array.getElem?_eq_some_iff.mp present).1

namespace Frame

variable {script : Script}

/-- The innermost frame stands on the statement. -/
def resumed (statement : Option StatementRef) : List Frame → List Frame
  | [] => []
  | frame :: rest => { frame with current := statement } :: rest

/-- Going on behind the statement that the top frame stands on keeps the frames
nested. The top frame has no cursor, so it may stand on any statement. -/
theorem nested_leaveFinished (linked : script.Linked) {top : Frame} {rest : List Frame}
    (nested : Nested script (top :: rest)) (idle : top.iteration = none) {this : StatementRef}
    (current : top.current = some this) :
    let (next, left) := leaveFinished (script.next this) (top :: rest)
    Nested script (resumed next left) ∧ OldCursors (top :: rest) (resumed next left) := by
  induction rest generalizing top this with
  | nil =>
      cases next : script.next this with
      | some following =>
          obtain ⟨statement, found⟩ := Script.statement?_of_lt (linked.next _ _ next)
          refine ⟨⟨⟨following, statement, rfl, found, by simp [idle]⟩, nested.2.1, nested.2.2,
            nested.2.3⟩, ?_⟩
          exact .replace [] [] [] (by simp [idle]) (List.forall_mem_nil _)
      | none =>
          simp only [leaveFinished, nested.2.fallback]
          exact ⟨trivial, .nil _⟩
  | cons lower rest ih =>
      cases next : script.next this with
      | some following =>
          obtain ⟨statement, found⟩ := Script.statement?_of_lt (linked.next _ _ next)
          refine ⟨nested.replaceTop ⟨following, statement, rfl, found, by simp [idle]⟩ rfl rfl rfl
            ?_, ?_⟩
          · intro head old same chain
            obtain rfl := Option.some.inj (same.symm.trans current)
            exact ⟨following, rfl, chain.later next⟩
          · exact .replace [] [] (lower :: rest) (by simp [idle]) (List.forall_mem_nil _)
      | none =>
          obtain ⟨_, ⟨that, statement, _, _, lowerCurrent, found, _, _, _, attached⟩, below⟩ := nested
          have popped := OldCursors.pop top (lower :: rest)
          have resumes : resumed (some that) (lower :: rest) = lower :: rest := by
            rw [← lowerCurrent]
            rfl
          cases statement with
          | branch branches otherwise =>
              have lowerIdle := below.seated.idle lowerCurrent found id
              simp only [leaveFinished, attached.1]
              obtain ⟨nested, old⟩ := ih below lowerIdle lowerCurrent
              exact ⟨nested, popped.trans old⟩
          | whileLoop | forLoop =>
              simp only [leaveFinished, attached.1, resumes]
              exact ⟨below, popped⟩
          | _ => exact attached.elim

/-- All statements that the frame knows. -/
def statements (frame : Frame) : List (Option StatementRef) :=
  [frame.current, frame.fallback, frame.continueTarget, frame.breakTarget]

/-- The statements that nested frames know are statements of the script. -/
theorem Nested.statements_lt {frames : List Frame} (linked : script.Linked)
    (nested : Nested script frames) :
    ∀ frame ∈ frames, ∀ statement, some statement ∈ frame.statements →
      statement.index < script.statements.size := by
  have seatedLt {frame : Frame} (seated : frame.Seated script) {this : StatementRef}
      (current : frame.current = some this) : this.index < script.statements.size := by
    obtain ⟨that, statement, stands, found, _⟩ := seated
    obtain rfl := Option.some.inj (current.symm.trans stands)
    exact Script.statement?_lt found
  induction frames with
  | nil => exact List.forall_mem_nil _
  | cons top rest ih =>
      refine List.forall_mem_cons.mpr ⟨?_, ih nested.below⟩
      intro statement member
      simp only [statements, List.mem_cons, List.not_mem_nil, or_false] at member
      rcases member with current | outside
      · exact seatedLt nested.seated current.symm
      · cases rest with
        | nil =>
            obtain ⟨_, bare⟩ := nested
            rw [bare.fallback, bare.continueTarget, bare.breakTarget] at outside
            rcases outside with absent | absent | absent <;> cases absent
        | cons lower rest =>
            obtain ⟨_, ⟨this, compound, _, _, lowerCurrent, _, _, _, _, attached⟩, below⟩ := nested
            have present := seatedLt below.seated lowerCurrent
            cases compound with
            | branch branches otherwise =>
                rw [attached.1, attached.2.1, attached.2.2] at outside
                rcases outside with following | absent | absent
                · exact linked.next this statement following.symm
                · cases absent
                · cases absent
            | whileLoop | forLoop =>
                rw [attached.1, attached.2.1, attached.2.2] at outside
                rcases outside with same | same | same <;> exact Option.some.inj same ▸ present
            | _ => exact attached.elim

theorem Nested.target {top : Frame} {rest : List Frame} {target : StatementRef}
    (nested : Nested script (top :: rest))
    (targets : top.continueTarget = some target ∨ top.breakTarget = some target) :
    ∃ lower below, rest = lower :: below ∧ lower.current = some target := by
  cases rest with
  | nil =>
      obtain ⟨_, bare⟩ := nested
      rw [bare.continueTarget, bare.breakTarget] at targets
      rcases targets with absent | absent <;> cases absent
  | cons lower below =>
      obtain ⟨_, ⟨this, statement, _, _, lowerCurrent, _, _, _, _, attached⟩, _⟩ := nested
      refine ⟨lower, below, rfl, ?_⟩
      cases statement with
      | branch branches otherwise =>
          rw [attached.2.1, attached.2.2] at targets
          rcases targets with absent | absent <;> cases absent
      | whileLoop | forLoop =>
          rw [attached.2.1, attached.2.2] at targets
          rw [lowerCurrent]
          exact targets.elim id id
      | _ => exact attached.elim

theorem nested_findContinue {frames rest : List Frame} {target : StatementRef}
    (nested : Nested script frames) (found : findContinue frames = some (target, rest)) :
    Nested script rest ∧ resumed (some target) rest = rest ∧ OldCursors frames rest := by
  induction frames with
  | nil => cases found
  | cons top below ih =>
      simp only [findContinue] at found
      cases continues : top.continueTarget with
      | none =>
          rw [continues] at found
          obtain ⟨restNested, resumes, old⟩ := ih nested.below found
          exact ⟨restNested, resumes, (OldCursors.pop top below).trans old⟩
      | some loop =>
          rw [continues] at found
          cases found
          obtain ⟨lower, rest, rfl, current⟩ := nested.target (.inl continues)
          refine ⟨nested.below, ?_, .pop top _⟩
          rw [← current]
          rfl

/-- Breaking out finds the frame that stands on the last loop that is left, unless
there are too few loops. -/
theorem nested_leaveBreakable {frames : List Frame} (nested : Nested script frames)
    (target : Option StatementRef) (count : Nat) :
    (∃ lower below loop, leaveBreakable target (count + 1) frames = (0, some loop, lower :: below) ∧
      lower.current = some loop ∧ Nested script (lower :: below) ∧
      OldCursors frames (lower :: below)) ∨
    ∃ missing last, leaveBreakable target (count + 1) frames = (missing + 1, last, []) := by
  induction frames generalizing target count with
  | nil => exact .inr ⟨count, target, rfl⟩
  | cons top rest ih =>
      have popped := OldCursors.pop top rest
      cases breaks : top.breakTarget with
      | none =>
          simp only [leaveBreakable, breaks]
          rcases ih nested.below target count with
            ⟨lower, below, loop, left, current, restNested, old⟩ | few
          · exact .inl ⟨lower, below, loop, left, current, restNested, popped.trans old⟩
          · exact .inr few
      | some loop =>
          simp only [leaveBreakable, breaks]
          cases count with
          | zero =>
              obtain ⟨lower, below, rfl, current⟩ := nested.target (.inr breaks)
              exact .inl ⟨lower, below, loop, rfl, current, nested.below, popped⟩
          | succ count =>
              rcases ih nested.below (some loop) count with
                ⟨lower, below, outer, left, current, restNested, old⟩ | few
              · exact .inl ⟨lower, below, outer, left, current, restNested, popped.trans old⟩
              · exact .inr few

end Frame

namespace Context

variable {context : Context}

theorem frames_resumeAt (context : Context) (statement : Option StatementRef) :
    (context.resumeAt statement).frames = Frame.resumed statement context.frames := by
  unfold resumeAt Frame.resumed
  cases frames : context.frames with
  | nil => exact frames
  | cons frame rest => rfl

/-- Going on behind a statement that is no loop with a cursor keeps the frames
nested. -/
theorem nested_proceed (linked : context.script.Linked)
    (nested : Frame.Nested context.script context.frames) {this : StatementRef}
    (current : context.current = some this) (idle : context.iteration = none) :
    Frame.Nested context.script context.proceed.frames ∧
      Frame.OldCursors context.frames context.proceed.frames := by
  obtain ⟨kind, evaluation, frames, ownsNames, returnValue⟩ := context
  cases frames with
  | nil => cases current
  | cons top rest =>
      have left := Frame.nested_leaveFinished linked nested idle current
      simp only [proceed, frames_resumeAt]
      rw [current]
      exact left

/-- Where a context goes on when it opens a sequence without statements. -/
theorem frames_enter_none (context : Context)
    (fallback continueTarget breakTarget : Option StatementRef) :
    (context.enter none fallback continueTarget breakTarget).frames =
      Frame.resumed (Frame.leaveFinished fallback context.frames).1
        (Frame.leaveFinished fallback context.frames).2 := by
  simp only [enter, Option.isNone_none, if_true, proceed, frames_resumeAt]
  rfl

theorem frames_enter_some (context : Context) (first : StatementRef)
    (fallback continueTarget breakTarget : Option StatementRef) :
    (context.enter (some first) fallback continueTarget breakTarget).frames =
      ⟨some first, fallback, continueTarget, breakTarget, none⟩ :: context.frames := by
  simp [enter]

theorem nested_entry (script : Script) (entry : Option StatementRef) (context : Context)
    (present : ∀ first, entry = some first → first.index < script.statements.size)
    (empty : context.frames = []) :
    Frame.Nested script (context.enter entry none none none).frames ∧
      Frame.Fresh (context.enter entry none none none).frames := by
  cases entry with
  | none =>
      rw [frames_enter_none, empty]
      exact ⟨trivial, List.forall_mem_nil _⟩
  | some first =>
      obtain ⟨statement, found⟩ := Script.statement?_of_lt (present first rfl)
      rw [frames_enter_some, empty]
      exact ⟨⟨⟨first, statement, rfl, found, nofun⟩, rfl, rfl, rfl⟩,
        List.forall_mem_singleton.mpr rfl⟩

/-- Opening the frame of a body that is attached to the current statement. -/
theorem nested_enter (linked : context.script.Linked)
    (nested : Frame.Nested context.script context.frames) {this : StatementRef}
    (current : context.current = some this) {statement : Statement}
    (found : context.script.statement? this = some statement)
    {body fallback continueTarget breakTarget : Option StatementRef}
    (member : body ∈ statement.heads)
    (attached : statement.Attaches context.script this
      ⟨body, fallback, continueTarget, breakTarget, none⟩) :
    Frame.Nested context.script
        (context.enter body fallback continueTarget breakTarget).frames ∧
      Frame.OldCursors context.frames
        (context.enter body fallback continueTarget breakTarget).frames := by
  obtain ⟨kind, evaluation, frames, ownsNames, returnValue⟩ := context
  cases frames with
  | nil => cases current
  | cons top rest =>
      have current : top.current = some this := current
      cases body with
      | some first =>
          obtain ⟨inner, innerFound⟩ :=
            Script.statement?_of_lt (linked.heads this statement found first member)
          rw [frames_enter_some]
          refine ⟨⟨⟨first, inner, rfl, innerFound, nofun⟩, ?_, nested⟩, ?_⟩
          · exact ⟨this, statement, some first, first, current, found, member, rfl, .here rfl,
              attached⟩
          · exact .replace [] [_] rest (fun _ => rfl) (List.forall_mem_singleton.mpr rfl)
      | none =>
          have resumes : Frame.resumed (some this) (top :: rest) = top :: rest := by
            rw [← current]
            rfl
          rw [frames_enter_none]
          cases statement with
          | branch branches otherwise =>
              have idle := nested.seated.idle current found id
              obtain ⟨rfl, _⟩ := attached
              exact Frame.nested_leaveFinished linked nested idle current
          | whileLoop | forLoop =>
              obtain ⟨rfl, _⟩ := attached
              simp only [Frame.leaveFinished, resumes]
              exact ⟨nested, .refl _⟩
          | _ => exact attached.elim

/-- The cursor of the loop that the top frame stands on may be replaced. -/
theorem nested_setIteration (nested : Frame.Nested context.script context.frames)
    {this : StatementRef} (current : context.current = some this) {statement : Statement}
    (found : context.script.statement? this = some statement) (iteration : Option Iteration)
    (loops : iteration.isSome → statement.IsFor) :
    Frame.Nested context.script (context.setIteration iteration).frames ∧
      Frame.KeepsCursors context.frames (context.setIteration iteration).frames := by
  obtain ⟨kind, evaluation, frames, ownsNames, returnValue⟩ := context
  cases frames with
  | nil => cases current
  | cons top rest =>
      refine ⟨nested.replaceTop ⟨this, statement, current, found, loops⟩ rfl rfl rfl ?_, ?_⟩
      · exact fun _ position same chain => ⟨position, same, chain⟩
      · exact .replaceTop rest rfl

theorem current_setIteration (context : Context) (iteration : Option Iteration) :
    (context.setIteration iteration).current = context.current := by
  obtain ⟨kind, evaluation, frames, ownsNames, returnValue⟩ := context
  cases frames <;> rfl

theorem setIteration_setIteration (context : Context) (first second : Option Iteration) :
    (context.setIteration first).setIteration second = context.setIteration second := by
  obtain ⟨kind, evaluation, frames, ownsNames, returnValue⟩ := context
  cases frames <;> rfl

theorem setIteration_iteration (context : Context) :
    context.setIteration context.iteration = context := by
  obtain ⟨kind, evaluation, frames, ownsNames, returnValue⟩ := context
  cases frames <;> rfl

theorem iteration_setIteration_none (context : Context) :
    (context.setIteration none).iteration = none := by
  obtain ⟨kind, evaluation, frames, ownsNames, returnValue⟩ := context
  cases frames <;> rfl

theorem oldCursors_setIteration_none (context : Context) :
    Frame.OldCursors context.frames (context.setIteration none).frames := by
  obtain ⟨kind, evaluation, frames, ownsNames, returnValue⟩ := context
  cases frames with
  | nil => exact .refl []
  | cons top rest => exact .replace [] [] rest nofun (List.forall_mem_nil _)

theorem nested_current (nested : Frame.Nested context.script context.frames) {this : StatementRef}
    (current : context.current = some this) :
    ∃ statement, context.script.statement? this = some statement := by
  obtain ⟨kind, evaluation, frames, ownsNames, returnValue⟩ := context
  cases frames with
  | nil => cases current
  | cons top rest =>
      obtain ⟨that, statement, stands, found, _⟩ := nested.seated
      obtain rfl := Option.some.inj (current.symm.trans stands)
      exact ⟨statement, found⟩

/-- Leaving a loop for good takes its cursor away and goes on behind it. -/
theorem nested_leaveLoop (linked : context.script.Linked)
    (nested : Frame.Nested context.script context.frames) {this : StatementRef}
    (current : context.current = some this) :
    Frame.Nested context.script (context.setIteration none).proceed.frames ∧
      Frame.OldCursors context.frames (context.setIteration none).proceed.frames := by
  have same := (context.keepsScope_setIteration none).script
  obtain ⟨statement, found⟩ := nested_current nested current
  have cleared := (nested_setIteration nested current found none nofun).1
  have left := nested_proceed (same ▸ linked) (same ▸ cleared)
    ((context.current_setIteration none).trans current) context.iteration_setIteration_none
  rw [same] at left
  exact ⟨left.1, context.oldCursors_setIteration_none.trans left.2⟩

theorem nested_nextLoopPass (nested : Frame.Nested context.script context.frames) :
    Frame.Nested context.script context.nextLoopPass.2.frames ∧
      Frame.OldCursors context.frames context.nextLoopPass.2.frames := by
  unfold nextLoopPass
  split
  · next target frames found =>
      obtain ⟨left, resumes, old⟩ := Frame.nested_findContinue nested found
      rw [frames_resumeAt]
      dsimp only
      rw [resumes]
      exact ⟨left, old⟩
  · exact ⟨trivial, .nil _⟩

theorem nested_breakOut (linked : context.script.Linked)
    (nested : Frame.Nested context.script context.frames) (count : Nat) :
    Frame.Nested context.script (context.breakOut count).2.frames ∧
      Frame.OldCursors context.frames (context.breakOut count).2.frames := by
  cases count with
  | zero => exact ⟨nested, .refl _⟩
  | succ count =>
      rcases Frame.nested_leaveBreakable nested none count with
        ⟨lower, below, loop, left, current, leftNested, old⟩ | ⟨missing, last, left⟩
      · simp only [breakOut, left, Nat.add_one_ne_zero, if_false, if_true]
        have same := ((context.keepsScope_frames (lower :: below)).trans
          (keepsScope_resumeAt _ (some loop))).script
        have frames : ({ context with frames := lower :: below }.resumeAt (some loop)).frames =
            lower :: below := by
          rw [frames_resumeAt, ← current]
          rfl
        generalize { context with frames := lower :: below }.resumeAt (some loop) = outer
          at same frames ⊢
        have outerCurrent : outer.current = some loop := by
          rw [Context.current, frames]
          exact current
        have broken := nested_leaveLoop (same ▸ linked) (same ▸ frames ▸ leftNested) outerCurrent
        rw [same, frames] at broken
        exact ⟨broken.1, old.trans broken.2⟩
      · simp only [breakOut, left, Nat.add_one_ne_zero, if_false]
        cases last <;> exact ⟨trivial, .nil _⟩

end Context

end ScriptEngine
