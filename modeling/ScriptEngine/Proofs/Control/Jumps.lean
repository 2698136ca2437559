import ScriptEngine.Proofs.Control.Scope

/-!
# Jumps on any frames

What a context does when it goes on, when it goes back to a loop and when it breaks out of
loops, whatever its frames are: nothing is assumed about how they came about, or about how
the statements of the script are linked.
-/

set_option autoImplicit false

namespace ScriptEngine

namespace Frame

/-- How many of the frames can be broken out of. -/
def loops (frames : List Frame) : Nat :=
  frames.countP fun frame => frame.breakTarget.isSome

/-- The frames are left one after the other because nothing follows: after the statement of
the innermost frame first, then as the fallback of the frame above. What follows in the frame
below all of them comes last. -/
inductive RunOut : Option StatementRef → List Frame → Option StatementRef → Prop where
  | stay (following : Option StatementRef) : RunOut following [] following
  | leave {frame : Frame} {rest : List Frame} {last : Option StatementRef}
      (further : RunOut frame.fallback rest last) : RunOut none (frame :: rest) last

/-- The innermost frame has no cursor. -/
def withoutCursor : List Frame → List Frame
  | [] => []
  | frame :: rest => { frame with iteration := none } :: rest

/-- The frames that remain are the lowest ones, as they were: only the innermost of them may
stand on another statement and have lost its cursor. -/
def Remain (before after : List Frame) : Prop :=
  after = [] ∨ ∃ frame rest current iteration,
    frame :: rest <:+ before ∧ (iteration = frame.iteration ∨ iteration = none) ∧
      after = { frame with current, iteration } :: rest

theorem loops_cons (frame : Frame) (rest : List Frame) :
    loops (frame :: rest) = loops rest + if frame.breakTarget.isSome then 1 else 0 :=
  List.countP_cons

theorem Remain.refl (frames : List Frame) : Remain frames frames := by
  cases frames with
  | nil => exact .inl rfl
  | cons frame rest =>
      exact .inr ⟨frame, rest, frame.current, frame.iteration, List.suffix_refl _, .inl rfl, rfl⟩

theorem Remain.trans {first second third : List Frame} (early : Remain first second)
    (late : Remain second third) : Remain first third := by
  rcases late with rfl | ⟨frame, rest, current, iteration, suffix, cursor, rfl⟩
  · exact .inl rfl
  rcases early with rfl | ⟨old, below, oldCurrent, oldIteration, oldSuffix, oldCursor, rfl⟩
  · exact absurd (List.suffix_nil.mp suffix) (List.cons_ne_nil _ _)
  refine .inr ?_
  rcases List.suffix_cons_iff.mp suffix with same | inside
  · obtain ⟨rfl, rfl⟩ := List.cons.inj same
    refine ⟨old, rest, current, iteration, oldSuffix, ?_, rfl⟩
    rcases cursor with rfl | rfl
    · exact oldCursor
    · exact .inr rfl
  · exact ⟨frame, rest, current, iteration,
      inside.trans ((List.suffix_cons old below).trans oldSuffix), cursor, rfl⟩

theorem Remain.of_suffix {before after : List Frame} (suffix : after <:+ before) :
    Remain before after := by
  cases after with
  | nil => exact .inl rfl
  | cons frame rest =>
      exact .inr ⟨frame, rest, frame.current, frame.iteration, suffix, .inl rfl, rfl⟩

theorem remain_withoutCursor (frames : List Frame) : Remain frames (withoutCursor frames) := by
  cases frames with
  | nil => exact .inl rfl
  | cons frame rest =>
      exact .inr ⟨frame, rest, frame.current, none, List.suffix_refl _, .inr rfl, rfl⟩

/-- If the upper frames are among those that are left, the lower ones are left from what
follows below the upper ones on. -/
theorem RunOut.of_append {next following last : Option StatementRef} {upper lower : List Frame}
    (run : RunOut next upper following) (whole : RunOut next (upper ++ lower) last) :
    RunOut following lower last := by
  induction run with
  | stay => exact whole
  | leave _ ih =>
      cases whole with
      | leave further => exact ih further

/-- Frames cannot be left any further than to where something follows. -/
theorem RunOut.longest {next following last : Option StatementRef} {left below more : List Frame}
    (run : RunOut next left following) (ends : following = none → below = [])
    (upper : more <+: left ++ below) (further : RunOut next more last) :
    more.length ≤ left.length := by
  rcases List.prefix_or_prefix_of_prefix upper (List.prefix_append left below) with within | behind
  · exact within.length_le
  · obtain ⟨lower, rfl⟩ := behind
    cases lower with
    | nil => simp
    | cons frame rest =>
        cases run.of_append further with
        | leave =>
            rw [ends rfl, List.append_nil] at upper
            exact upper.length_le

theorem leaveFinished_runOut (next : Option StatementRef) (frames : List Frame) :
    ∃ left, frames = left ++ (leaveFinished next frames).2 ∧
      RunOut next left (leaveFinished next frames).1 ∧
      ((leaveFinished next frames).1 = none → (leaveFinished next frames).2 = []) := by
  induction frames generalizing next with
  | nil =>
      cases next with
      | none => exact ⟨[], rfl, .stay none, fun _ => rfl⟩
      | some following => exact ⟨[], rfl, .stay _, nofun⟩
  | cons frame rest ih =>
      cases next with
      | none =>
          obtain ⟨left, split, run, ends⟩ := ih frame.fallback
          exact ⟨frame :: left, congrArg (frame :: ·) split, .leave run, ends⟩
      | some following => exact ⟨[], rfl, .stay _, nofun⟩

theorem findContinue_none {frames : List Frame} (found : findContinue frames = none) :
    ∀ frame ∈ frames, frame.continueTarget = none := by
  induction frames with
  | nil => exact List.forall_mem_nil _
  | cons frame rest ih =>
      unfold findContinue at found
      split at found
      · cases found
      · next absent => exact List.forall_mem_cons.mpr ⟨absent, ih found⟩

theorem findContinue_some {frames below : List Frame} {target : StatementRef}
    (found : findContinue frames = some (target, below)) :
    ∃ left frame, frames = left ++ frame :: below ∧
      (∀ other ∈ left, other.continueTarget = none) ∧ frame.continueTarget = some target := by
  induction frames with
  | nil => cases found
  | cons frame rest ih =>
      unfold findContinue at found
      split at found
      · next continues =>
          cases found
          exact ⟨[], frame, rfl, List.forall_mem_nil _, continues⟩
      · next absent =>
          obtain ⟨left, last, rfl, others, continues⟩ := ih found
          exact ⟨frame :: left, last, rfl, List.forall_mem_cons.mpr ⟨absent, others⟩, continues⟩

/-- With too few frames that can be broken out of, all frames are left. -/
theorem leaveBreakable_few {frames : List Frame} {count : Nat} (few : loops frames < count)
    (target : Option StatementRef) :
    ∃ last, leaveBreakable target count frames = (count - loops frames, last, []) ∧
      (last = none ↔ target = none ∧ loops frames = 0) := by
  induction frames generalizing target count with
  | nil =>
      obtain ⟨count, rfl⟩ : ∃ less, count = less + 1 := Nat.exists_eq_add_one.mpr (by omega)
      exact ⟨target, rfl, by simp [loops]⟩
  | cons frame rest ih =>
      obtain ⟨count, rfl⟩ : ∃ less, count = less + 1 := Nat.exists_eq_add_one.mpr (by omega)
      rw [loops_cons] at few ⊢
      cases breaks : frame.breakTarget with
      | none =>
          have fewer : loops rest < count + 1 := by simpa [breaks] using few
          obtain ⟨last, left, met⟩ := ih fewer target
          exact ⟨last, by simpa [leaveBreakable, breaks] using left, by simpa using met⟩
      | some found =>
          obtain ⟨last, left, met⟩ := ih (by simpa [breaks] using few) (some found)
          refine ⟨last, by simpa [leaveBreakable, breaks] using left, ?_⟩
          simpa using met

/-- With enough of them, the last frame to be left is the one that makes the number full. -/
theorem leaveBreakable_enough {frames : List Frame} {count : Nat} (enough : count < loops frames)
    (target : Option StatementRef) :
    ∃ left frame below found, frames = left ++ frame :: below ∧ loops left = count ∧
      frame.breakTarget = some found ∧
      leaveBreakable target (count + 1) frames = (0, some found, below) := by
  induction frames generalizing target count with
  | nil => cases enough
  | cons frame rest ih =>
      rw [loops_cons] at enough
      cases breaks : frame.breakTarget with
      | none =>
          obtain ⟨left, last, below, found, rfl, counted, lastBreaks, leaves⟩ :=
            ih (by simpa [breaks] using enough) target
          refine ⟨frame :: left, last, below, found, rfl, ?_, lastBreaks, ?_⟩
          · rw [loops_cons, counted]
            simp [breaks]
          · simpa only [leaveBreakable, breaks] using leaves
      | some met =>
          cases count with
          | zero =>
              exact ⟨[], frame, rest, met, rfl, rfl, breaks, by simp [leaveBreakable, breaks]⟩
          | succ count =>
              obtain ⟨left, last, below, found, rfl, counted, lastBreaks, leaves⟩ :=
                ih (by simpa [breaks] using enough) (some met)
              refine ⟨frame :: left, last, below, found, rfl, ?_, lastBreaks, ?_⟩
              · rw [loops_cons, counted]
                simp [breaks]
              · simpa only [leaveBreakable, breaks] using leaves

end Frame

namespace Context

/-- The context with only the given frames left, the innermost of which stands on a
statement. What was being evaluated is forgotten, unless there is no frame to go on in. -/
def standing (context : Context) (statement : Option StatementRef) : List Frame → Context
  | [] => { context with frames := [] }
  | frame :: rest =>
      { context with
        frames := { frame with current := statement } :: rest
        evaluation := context.evaluation.reset }

/-- The context leaves the longest run of frames in which nothing follows, and goes on with
what follows in the frame below, if there is one. -/
def LeavesFinished (context : Context) : Prop :=
  ∃ left below following, context.frames = left ++ below ∧
    Frame.RunOut (context.current.bind context.script.next) left following ∧
    (∀ more last, more <+: context.frames →
      Frame.RunOut (context.current.bind context.script.next) more last →
        more.length ≤ left.length) ∧
    (following = none → below = []) ∧
    context.proceed = context.standing following below

/-- Going back to a loop leaves the frames down to the nearest one with a continue target,
and the frame below stands on that target with the cursor that it has. Without such a frame
it fails, and no frame is left. -/
structure GoesBack (context : Context) : Prop where
  absent : (∀ frame ∈ context.frames, frame.continueTarget = none) →
    context.nextLoopPass = (.error .noContinueTarget, { context with frames := [] })
  present : (∃ frame ∈ context.frames, frame.continueTarget.isSome) →
    ∃ left frame below target, context.frames = left ++ frame :: below ∧
      (∀ other ∈ left, other.continueTarget = none) ∧ frame.continueTarget = some target ∧
      context.nextLoopPass = (.ok (), context.standing (some target) below)

/-- Breaking out of a number of loops fails for none at all and if there are too few. Else it
leaves the frames down to the one with the last of so many break targets; the frame below
stands on that target without a cursor, and the context proceeds from there. -/
structure BreaksOut (context : Context) (count : Nat) : Prop where
  invalid : count = 0 → context.breakOut count = (.error .invalidBreakCount, context)
  none : 0 < count → Frame.loops context.frames = 0 →
    context.breakOut count = (.error .noBreakTarget, { context with frames := [] })
  few : 0 < Frame.loops context.frames → Frame.loops context.frames < count →
    context.breakOut count =
      (.error (.tooFewCompounds (count - Frame.loops context.frames)),
        { context with frames := [] })
  enough : 0 < count → count ≤ Frame.loops context.frames →
    ∃ left frame below target, context.frames = left ++ frame :: below ∧
      Frame.loops left + 1 = count ∧ frame.breakTarget = some target ∧
      context.breakOut count =
        (.ok (), (context.standing (some target) (Frame.withoutCursor below)).proceed)

/-- The context runs the same script in the same scope, and has the same value to end with. Its
frames are some of those at the bottom. -/
structure Remains (before after : Context) : Prop where
  scope : before.KeepsScope after
  returnValue : after.returnValue = before.returnValue
  frames : Frame.Remain before.frames after.frames

namespace Remains

theorem trans {first second third : Context} (early : first.Remains second)
    (late : second.Remains third) : first.Remains third where
  scope := early.scope.trans late.scope
  returnValue := late.returnValue.trans early.returnValue
  frames := early.frames.trans late.frames

theorem left (context : Context) : context.Remains { context with frames := [] } :=
  ⟨context.keepsScope_frames [], rfl, .inl rfl⟩

theorem standing (context : Context) (statement : Option StatementRef) {below : List Frame}
    (remain : Frame.Remain context.frames below) :
    context.Remains (context.standing statement below) := by
  cases below with
  | nil => exact left context
  | cons frame rest =>
      refine ⟨⟨rfl, ⟨rfl, rfl⟩, rfl⟩, rfl, remain.trans ?_⟩
      exact .inr ⟨frame, rest, statement, frame.iteration, List.suffix_refl _, .inl rfl, rfl⟩

end Remains

variable (context : Context)

theorem resumeAt_frames (statement : Option StatementRef) (below : List Frame) :
    { context with frames := below }.resumeAt statement = context.standing statement below := by
  cases below <;> rfl

theorem standing_withoutCursor (statement : Option StatementRef) (below : List Frame) :
    (context.standing statement below).setIteration none =
      context.standing statement (Frame.withoutCursor below) := by
  cases below <;> rfl

theorem proceed_standing :
    context.proceed =
      context.standing
        (Frame.leaveFinished (context.current.bind context.script.next) context.frames).1
        (Frame.leaveFinished (context.current.bind context.script.next) context.frames).2 :=
  context.resumeAt_frames _ _

theorem leavesFinished : context.LeavesFinished := by
  obtain ⟨left, split, run, ends⟩ :=
    Frame.leaveFinished_runOut (context.current.bind context.script.next) context.frames
  refine ⟨left, _, _, split, run, ?_, ends, context.proceed_standing⟩
  intro more last upper further
  rw [split] at upper
  exact run.longest ends upper further

theorem goesBack : context.GoesBack := by
  cases found : Frame.findContinue context.frames with
  | none =>
      have absent := Frame.findContinue_none found
      refine ⟨fun _ => by simp only [nextLoopPass, found], ?_⟩
      rintro ⟨frame, member, continues⟩
      rw [absent frame member] at continues
      cases continues
  | some result =>
      obtain ⟨target, below⟩ := result
      obtain ⟨left, frame, split, others, continues⟩ := Frame.findContinue_some found
      constructor
      · intro absent
        have member : frame ∈ context.frames := by
          rw [split]
          exact List.mem_append_right left List.mem_cons_self
        rw [absent frame member] at continues
        cases continues
      · intro _
        refine ⟨left, frame, below, target, split, others, continues, ?_⟩
        simp only [nextLoopPass, found, resumeAt_frames]

theorem breaksOut (count : Nat) : context.BreaksOut count := by
  constructor
  · rintro rfl
    rfl
  · intro positive absent
    obtain ⟨last, left, met⟩ :=
      Frame.leaveBreakable_few (absent ▸ positive : Frame.loops context.frames < count) none
    obtain rfl := met.mpr ⟨rfl, absent⟩
    simp only [breakOut, left, Nat.ne_of_gt positive, if_false]
  · intro some few
    obtain ⟨last, left, met⟩ := Frame.leaveBreakable_few few none
    have positive : 0 < count := Nat.lt_of_le_of_lt (Nat.zero_le _) few
    cases last with
    | none => exact absurd (met.mp rfl).2 (Nat.ne_of_gt some)
    | some loop =>
        simp only [breakOut, left, Nat.ne_of_gt positive, if_false,
          Nat.ne_of_gt (Nat.sub_pos_of_lt few)]
  · intro positive enough
    obtain ⟨less, rfl⟩ : ∃ less, count = less + 1 := Nat.exists_eq_add_one.mpr positive
    obtain ⟨left, frame, below, target, split, counted, breaks, leaves⟩ :=
      Frame.leaveBreakable_enough enough none
    refine ⟨left, frame, below, target, split, congrArg (· + 1) counted, breaks, ?_⟩
    simp only [breakOut, leaves, Nat.add_one_ne_zero, if_false, if_true, resumeAt_frames,
      standing_withoutCursor]

theorem remains_proceed : context.Remains context.proceed := by
  obtain ⟨left, split, _, _⟩ :=
    Frame.leaveFinished_runOut (context.current.bind context.script.next) context.frames
  rw [proceed_standing]
  exact .standing context _ (.of_suffix ⟨left, split.symm⟩)

theorem remains_nextLoopPass : context.Remains context.nextLoopPass.2 := by
  unfold nextLoopPass
  split
  · next target below found =>
      obtain ⟨left, frame, split, _, _⟩ := Frame.findContinue_some found
      rw [resumeAt_frames]
      refine .standing context _ (.of_suffix ?_)
      exact ⟨left ++ [frame], by rw [split, List.append_assoc, List.singleton_append]⟩
  · exact .left context

theorem remains_breakOut (count : Nat) : context.Remains (context.breakOut count).2 := by
  have breaks := context.breaksOut count
  rcases Nat.eq_zero_or_pos count with rfl | positive
  · exact ⟨.refl _, rfl, .refl _⟩
  rcases Nat.lt_or_ge (Frame.loops context.frames) count with few | enough
  · rcases Nat.eq_zero_or_pos (Frame.loops context.frames) with none | some
    · rw [breaks.none positive none]
      exact .left context
    · rw [breaks.few some few]
      exact .left context
  · obtain ⟨left, frame, below, target, split, _, _, answer⟩ := breaks.enough positive enough
    rw [answer]
    have suffix : below <:+ context.frames :=
      ⟨left ++ [frame], by rw [split, List.append_assoc, List.singleton_append]⟩
    have stands : context.Remains (context.standing (some target) (Frame.withoutCursor below)) :=
      .standing context _ ((Frame.Remain.of_suffix suffix).trans (Frame.remain_withoutCursor below))
    exact stands.trans (remains_proceed _)

/-- What the three ways of going on do to any frames of any context: which frames are left,
which statement stands in the frame below, which cursors stay, and how it fails. Nothing else
about the context changes. -/
theorem jumps_on_any_frames (count : Nat) :
    context.LeavesFinished ∧ context.GoesBack ∧ context.BreaksOut count ∧
      context.Remains context.proceed ∧ context.Remains context.nextLoopPass.2 ∧
      context.Remains (context.breakOut count).2 :=
  ⟨context.leavesFinished, context.goesBack, context.breaksOut count, context.remains_proceed,
    context.remains_nextLoopPass, context.remains_breakOut count⟩

end Context

end ScriptEngine
