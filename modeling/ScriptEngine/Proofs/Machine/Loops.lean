import Mathlib
import ScriptEngine.Proofs.Machine.Cursors
import ScriptEngine.Proofs.Machine.Present

/-!
# Executions of `for` loops

A run of a session takes turn after turn; between two turns the script may be suspended for a
while. A loop that is entered by a turn is under way as long as the frame that stands on it
has its cursor. The cursor counts the passes that have begun (`Run.cursor_of_underWay`).

The body of a loop over an array or a text is begun at most as often as there were items when
the loop was entered, whatever the body does. It is begun exactly so often if the loop is not
left by a jump or an error and if every pass comes to an end
(`Run.loops_over_sequences_are_bounded`).
-/

set_option autoImplicit false

namespace ScriptEngine

namespace Session

/-- There is an item at every position but those behind the end. -/
theorem itemAt_eq_none {heap : Heap} {source : Value} {length : Nat}
    (counted : lengthOf heap source = .ok length) (position : Nat) :
    Iteration.itemAt heap source position = none ↔ length ≤ position := by
  cases source with
  | array | text | record =>
      cases counted
      simp [Iteration.itemAt, Record.size, Record.names, String.length_toList]
  | none | number | bool | function => cases counted

/-!
## Passes
-/

/-- The item for which the next turn begins a pass of a `for` loop. -/
def passing (session : Session) : Option Value :=
  (session.testing.bind (Iteration.next session.heap)).map Prod.fst

/-- The value over which the next turn enters a `for` loop. -/
def entering (session : Session) : Option Value :=
  match session.stack with
  | ⟨context, .evaluating (.forLoop ..)⟩ :: _ =>
      match context.evaluation.advance session.heap with
      | (.finished value, _, _) => some value
      | _ => none
  | _ => none

/-- The array that the next turn enters a loop over, if it does so. -/
def enteringArray? (session : Session) : Option ArrayRef :=
  match session.entering with
  | some (.array reference) => some reference
  | _ => none

theorem entering_of_array {session : Session} {reference : ArrayRef}
    (found : session.enteringArray? = some reference) :
    session.entering = some (.array reference) := by
  unfold enteringArray? at found
  split at found
  · next entering =>
      cases found
      exact entering
  · cases found

/-- The next turn binds the item to the variable of the loop that the innermost frame stands
on, lets its cursor go on, and begins the body of the loop. -/
inductive BeginsPass (session : Session) (item : Value) : Prop where
  | intro {cursor moved : Iteration} {context : Context} {below : List Activation}
      {loop : StatementRef} {name : String} {iterable : ExpressionRef}
      {body : Option StatementRef} {span : Span} (tests : session.testing = some cursor)
      (next : cursor.next session.heap = some (item, moved))
      (current : context.current = some loop)
      (found : context.script.statement? loop = some (.forLoop name iterable body span))
      (working : session.advance.1 = .working)
      (bound : session.advance.2.heap = context.bind session.heap name item)
      (entered : session.advance.2.stack =
        ⟨(context.setIteration (some moved)).enterLoopBody loop body, .resting⟩ :: below)

variable {session : Session}

theorem BeginsPass.of_turn {item : Value} {cursor moved : Iteration} {context : Context}
    {below : List Activation} {loop : StatementRef} {name : String} {iterable : ExpressionRef}
    {body : Option StatementRef} {span : Span} (tests : session.testing = some cursor)
    (next : cursor.next session.heap = some (item, moved)) (current : context.current = some loop)
    (found : context.script.statement? loop = some (.forLoop name iterable body span))
    {settling : Session} (turn : session.advance = settling.settleStatement
      (.done ((context.setIteration (some moved)).enterLoopBody loop body)
        (context.bind session.heap name item)) below) : session.BeginsPass item :=
  .intro tests next current found (by rw [turn]; rfl) (by rw [turn]; rfl) (by rw [turn]; rfl)

theorem beginsPass_of_passing (fine : nesting.SessionFine session) {item : Value}
    (passing : session.passing = some item) : session.BeginsPass item := by
  obtain ⟨⟨value, moved⟩, next, same⟩ := Option.map_eq_some_iff.mp passing
  obtain ⟨cursor, tests, next⟩ := Option.bind_eq_some_iff.mp next
  obtain rfl : value = item := same
  have tested := tests
  unfold testing at tested
  split at tested
  · next context below stack =>
      split at tested
      · cases tested
      · next inTime =>
          split at tested
          · next name iterable body span found =>
              obtain ⟨this, current, found⟩ := Option.bind_eq_some_iff.mp found
              have turn := advance_of_begin stack current found (by simpa using inTime)
              have begun : context.beginStatement session.heap this
                  (.forLoop name iterable body span) =
                  .done ((context.setIteration (some moved)).enterLoopBody this body)
                    (context.bind session.heap name value) := by
                simp only [Context.beginStatement, Context.nextPass, tested, Option.bind_some, next]
              rw [begun] at turn
              exact .of_turn tests next current found turn
          · cases tested
  · next context this name body span below stack =>
      split at tested
      · next source evaluation heap taken =>
          obtain ⟨_, _, this, statement, ⟨current, found, _⟩, fits⟩ := Nesting.evaluated
            (Context.script_of_advance taken) (fine.stack _ (stack ▸ List.mem_cons_self))
          obtain ⟨rfl, iterable, rfl⟩ := fits
          obtain rfl := heap_of_finished taken
          have started : Iteration.start source = .ok cursor := by
            cases started : Iteration.start source <;> rw [started] at tested <;> cases tested
            rfl
          have iterates := Context.iteration_setIteration current (some cursor)
          have turn := advance_of_finished stack taken
          have begun : ({ context with evaluation } : Context).deliver session.heap
              (.forLoop this name body span) source =
              .done ((({ context with evaluation } : Context).setIteration
                  (some cursor)).setIteration (some moved) |>.enterLoopBody this body)
                ((({ context with evaluation } : Context).setIteration (some cursor)).bind
                  session.heap name value) := by
            simp only [Context.deliver, started, Context.nextPass, iterates, Option.bind_some, next]
          rw [begun] at turn
          exact .of_turn tests next ((Context.current_setIteration _ _).trans current)
            ((Context.keepsScope_setIteration _ _).script ▸ found) turn
      · cases tested
  · cases tested

/-!
## Runs
-/

/-- Time passes, or a script is suspended or goes on. -/
structure Pauses (before after : Session) : Prop where
  stack : after.stack = before.stack
  heap : after.heap = before.heap
  globals : after.globals = before.globals

/-- The sessions before each turn of a run. There may be a pause after every turn. -/
structure Run (run : Nat → Session) : Prop where
  tidy : (run 0).Tidy
  goesOn : ∀ turn, (run turn).advance.2.Pauses (run (turn + 1))

/-- The loop that the first turn enters is under way after so many turns: the frame that
stands on it has had a cursor all the time. -/
def UnderWay (run : Nat → Session) (turns : Nat) : Prop :=
  ∀ turn, 0 < turn → turn ≤ turns → ((run turn).cursor? (run 0).innermost).isSome = true

/-- The run without pauses that begins with the session. -/
def turnsFrom (session : Session) (turn : Nat) : Session :=
  (fun session => session.advance.2)^[turn] session

theorem turnsFrom_succ (session : Session) (turn : Nat) :
    session.turnsFrom (turn + 1) = (session.turnsFrom turn).advance.2 :=
  Function.iterate_succ_apply' _ turn session

/-- How many passes of the loop that the first turn enters are begun in so many turns. -/
def passes (run : Nat → Session) (turns : Nat) : Nat :=
  Nat.count (fun turn => (run turn).innermost = (run 0).innermost ∧
    (run turn).passing.isSome = true) turns

/-- A turn at the end of which the loop is under way, or no longer. -/
inductive LoopTurn (run : Nat → Session) (source : Value) (turn : Nat) : Prop where
  | goesOn (held : (run (turn + 1)).cursor? (run 0).innermost =
      some ⟨source, passes run (turn + 1)⟩)
  /-- There is no item left. -/
  | ends (exhausted : Iteration.itemAt (run turn).heap source (passes run turn) = none)
      (same : passes run (turn + 1) = passes run turn)
      (gone : (run (turn + 1)).cursor? (run 0).innermost = none)
  | left (leaves : (run turn).Leaves) (depth : (run turn).stack.length = (run 0).stack.length)
      (gone : (run (turn + 1)).cursor? (run 0).innermost = none)
  | failed (failed : ∃ failure, (run turn).advance.1 = .failed failure)
      (gone : (run (turn + 1)).cursor? (run 0).innermost = none)

theorem passes_of_begins {run : Nat → Session} {turn : Nat}
    (inside : (run turn).innermost = (run 0).innermost)
    (begins : (run turn).passing.isSome = true) :
    passes run (turn + 1) = passes run turn + 1 :=
  Nat.count_succ_eq_succ_count_iff.mpr ⟨inside, begins⟩

theorem passes_of_not {run : Nat → Session} {turn : Nat}
    (other : (run turn).passing = none ∨ (run turn).innermost ≠ (run 0).innermost) :
    passes run (turn + 1) = passes run turn := by
  refine Nat.count_succ_eq_count_iff.mpr fun ⟨inside, begins⟩ => ?_
  rcases other with idle | outside
  · rw [idle] at begins
    cases begins
  · exact outside inside

namespace Run

variable {run : Nat → Session} (runs : Run run)

include runs

omit runs in
theorem of_turns {session : Session} (tidy : session.Tidy) : Run session.turnsFrom where
  tidy := tidy
  goesOn turn := by
    rw [turnsFrom_succ]
    exact ⟨rfl, rfl, rfl⟩

theorem tidy_at (turn : Nat) : (run turn).Tidy := by
  induction turn with
  | zero => exact runs.tidy
  | succ turn ih =>
      have same := runs.goesOn turn
      have closed := ih.advance.present.heap
      exact ih.advance.other ⟨same.stack, congrArg Heap.functions same.heap⟩ same.globals
        (Nat.le_of_eq (congrArg (fun heap => heap.records.size) same.heap.symm))
        (same.heap ▸ closed.refl)

theorem fine_at (turn : Nat) : nesting.SessionFine (run turn) :=
  LocalInvariant.reached_fine Nesting.kept (runs.tidy_at turn).staged.reached

theorem keepsLengths (turn : Nat) : (run turn).heap.KeepsLengths (run (turn + 1)).heap :=
  (runs.goesOn turn).heap ▸ (run turn).advance_keepsLengths

theorem cursor?_succ (turn : Nat) (place : Nat × Nat) :
    (run (turn + 1)).cursor? place = (run turn).advance.2.cursor? place := by
  simp only [cursor?, (runs.goesOn turn).stack]

section

variable {source : Value} (enters : (run 0).entering = some source)
  (started : Iteration.start source = .ok ⟨source, 0⟩)

include enters

omit runs in
theorem depth_of_entering : (run 0).innermost.1 + 1 = (run 0).stack.length := by
  unfold entering at enters
  split at enters
  · next stack => simp only [innermost, stack, List.length_cons]
  · cases enters

include started

omit runs in
theorem testing_of_entering : (run 0).testing = some ⟨source, 0⟩ := by
  unfold entering at enters
  split at enters
  · next stack =>
      split at enters
      · next taken =>
          cases enters
          simp only [testing, stack, taken, started]
          rfl
      · cases enters
  · cases enters

/-- The cursor with which the loop is tested counts its passes. -/
private theorem testing_eq {turn : Nat}
    (held : turn = 0 ∨ (run turn).cursor? (run 0).innermost = some ⟨source, passes run turn⟩)
    (inside : (run turn).innermost = (run 0).innermost) {cursor : Iteration}
    (tests : (run turn).testing = some cursor) : cursor = ⟨source, passes run turn⟩ := by
  rcases held with rfl | held
  · exact Option.some.inj (tests.symm.trans (testing_of_entering enters started))
  · cases advance_cursors (runs.fine_at turn) with
    | stays idle | leaves idle | fails idle =>
        rw [tests] at idle
        cases idle
    | tests testing same =>
        obtain rfl := Option.some.inj (testing.symm.trans tests)
        exact (same _ (inside ▸ held)).symm

theorem loopTurn {turn : Nat}
    (held : turn = 0 ∨ (run turn).cursor? (run 0).innermost = some ⟨source, passes run turn⟩) :
    LoopTurn run source turn := by
  have entered := testing_of_entering enters started
  have later := runs.cursor?_succ turn (run 0).innermost
  -- No pass begins in a turn that tests no loop.
  have quiet (idle : (run turn).testing = none) : 0 < turn ∧
      (run turn).cursor? (run 0).innermost = some ⟨source, passes run (turn + 1)⟩ := by
    rcases held with rfl | held
    · rw [entered] at idle
      cases idle
    · refine ⟨Nat.pos_of_ne_zero fun first => ?_, ?_⟩
      · rw [first, entered] at idle
        cases idle
      · rw [held, passes_of_not (.inl (by rw [passing, idle]; rfl))]
  -- Whatever cursor is still there is that of the loop.
  have kept (idle : (run turn).testing = none)
      (old : StackStays (run turn).advance.2.stack (run turn).stack) :
      LoopTurn run source turn ∨ (run (turn + 1)).cursor? (run 0).innermost = none := by
    cases found : (run (turn + 1)).cursor? (run 0).innermost with
    | none => exact .inr rfl
    | some cursor =>
        have before := old _ _ (later.symm.trans found)
        obtain rfl := Option.some.inj (before.symm.trans (quiet idle).2)
        exact .inl (.goesOn found)
  cases advance_cursors (runs.fine_at turn) with
  | stays idle stay => exact .goesOn (later.trans (stay _ _ (quiet idle).2))
  | @tests cursor testing same moved others =>
      by_cases inside : (run turn).innermost = (run 0).innermost
      · obtain rfl := runs.testing_eq enters started held inside testing
        rw [inside] at moved
        cases next : Iteration.next (run turn).heap ⟨source, passes run turn⟩ with
        | none =>
            have idle : (run turn).passing = none := by simp [passing, testing, next]
            exact .ends (Option.map_eq_none_iff.mp next) (passes_of_not (.inl idle))
              (later.trans (by rw [moved, next]; rfl))
        | some answer =>
            obtain ⟨item, _, same⟩ := Option.map_eq_some_iff.mp next
            have begins : (run turn).passing.isSome = true := by simp [passing, testing, next]
            refine .goesOn (later.trans ?_)
            rw [moved, next, passes_of_begins inside begins, ← same]
            rfl
      · rcases held with rfl | held
        · exact (inside rfl).elim
        · refine .goesOn (later.trans (others _ _ (Ne.symm inside) ?_))
          rw [held, passes_of_not (.inr inside)]
  | leaves idle leaves old others =>
      rcases kept idle old with goesOn | gone
      · exact goesOn
      · refine .left leaves ?_ gone
        by_contra deeper
        have still := others _ _ (by rw [depth_of_entering enters]; exact Ne.symm deeper)
          (quiet idle).2
        rw [← later, gone] at still
        cases still
  | fails idle failed old =>
      rcases kept idle old with goesOn | gone
      · exact goesOn
      · exact .failed failed gone

/-- The cursor of a loop that is under way counts the passes that have begun. -/
theorem cursor_of_underWay {turn : Nat} (underWay : UnderWay run turn) (positive : 0 < turn) :
    (run turn).cursor? (run 0).innermost = some ⟨source, passes run turn⟩ := by
  induction turn with
  | zero => cases positive
  | succ turn ih =>
      have still := underWay (turn + 1) positive (Nat.le_refl _)
      have held : turn = 0 ∨
          (run turn).cursor? (run 0).innermost = some ⟨source, passes run turn⟩ :=
        turn.eq_zero_or_pos.imp_right (ih fun earlier first before =>
          underWay earlier first (Nat.le_succ_of_le before))
      cases runs.loopTurn enters started held with
      | goesOn held => exact held
      | ends _ _ gone | left _ _ gone | failed _ gone =>
          rw [gone] at still
          cases still

theorem loopTurn_of_underWay {turn : Nat} (underWay : UnderWay run turn) :
    LoopTurn run source turn :=
  runs.loopTurn enters started
    (turn.eq_zero_or_pos.imp_right (runs.cursor_of_underWay enters started underWay))

/-- A pass gets the item to which the cursor points. -/
theorem itemAt_of_passing {turn : Nat} (underWay : UnderWay run turn)
    (inside : (run turn).innermost = (run 0).innermost) {item : Value}
    (passing : (run turn).passing = some item) :
    Iteration.itemAt (run turn).heap source (passes run turn) = some item := by
  obtain ⟨answer, next, same⟩ := Option.map_eq_some_iff.mp passing
  obtain ⟨cursor, tests, next⟩ := Option.bind_eq_some_iff.mp next
  obtain rfl := runs.testing_eq enters started
    (turn.eq_zero_or_pos.imp_right (runs.cursor_of_underWay enters started underWay)) inside tests
  obtain ⟨value, found, rfl⟩ := Option.map_eq_some_iff.mp next
  exact same ▸ found

/-- While the loop is under way, it is always tested when its frame is the innermost one, and
the next pass begins. -/
theorem passing_of_inside {turn : Nat} (underWay : UnderWay run (turn + 1))
    (inside : (run turn).innermost = (run 0).innermost)
    (passed : ∀ failure, (run turn).advance.1 ≠ .failed failure) :
    (run turn).passing.isSome = true := by
  have before : UnderWay run turn := fun earlier first last =>
    underWay earlier first (Nat.le_succ_of_le last)
  have tests : ∃ cursor, (run turn).testing = some cursor := by
    rcases turn.eq_zero_or_pos with rfl | positive
    · exact ⟨_, testing_of_entering enters started⟩
    · have held := runs.cursor_of_underWay enters started before positive
      rcases testing_of_cursor (runs.fine_at turn) (inside ▸ held) with tests | ⟨failure, failed⟩
      · exact ⟨_, tests⟩
      · exact (passed failure failed).elim
  obtain ⟨cursor, tests⟩ := tests
  cases next : cursor.next (run turn).heap with
  | some answer => simp [passing, tests, next]
  | none =>
      have still := underWay (turn + 1) (Nat.succ_pos turn) (Nat.le_refl _)
      cases advance_cursors (runs.fine_at turn) with
      | stays idle | leaves idle | fails idle =>
          rw [tests] at idle
          cases idle
      | tests testing _ moved =>
          obtain rfl := Option.some.inj (testing.symm.trans tests)
          rw [runs.cursor?_succ, ← inside, moved, next] at still
          cases still

end

/-!
## Loops over arrays and texts
-/

section

variable {source : Value} (enters : (run 0).entering = some source)

include enters

theorem present_of_entering : source.Present (run 0).heap := by
  have present := runs.tidy.present
  unfold entering at enters
  split at enters
  · next context _ _ _ _ _ stack =>
      have top := (present.stack _ (stack ▸ List.mem_cons_self)).context
      obtain ⟨_, value, _⟩ := top.evaluation.advance present.heap
      split at enters
      · next taken =>
          cases enters
          rw [taken] at value
          exact heap_of_finished taken ▸ value
      · cases enters
  · cases enters

variable (sequence : (∃ reference, source = .array reference) ∨ ∃ text, source = .text text)
  {length : Nat} (counted : lengthOf (run 0).heap source = .ok length)

include sequence

omit runs enters in
theorem start_of_sequence : Iteration.start source = .ok ⟨source, 0⟩ := by
  rcases sequence with ⟨reference, rfl⟩ | ⟨text, rfl⟩ <;> rfl

include counted

/-- An array or a text is as long as it was when the loop over it was entered. -/
theorem lengthOf_eq (turn : Nat) : lengthOf (run turn).heap source = .ok length := by
  rcases sequence with ⟨reference, rfl⟩ | ⟨text, rfl⟩
  · have present : reference.address < (run 0).heap.arrays.size :=
      runs.present_of_entering enters
    have kept : (run 0).heap.KeepsLengths (run turn).heap := by
      induction turn with
      | zero => exact .of_arrays rfl
      | succ turn ih => exact ih.trans (runs.keepsLengths turn)
    rw [← counted]
    simp only [lengthOf, kept.lengths reference present]
  · exact counted

private theorem passes_succ_le {turn : Nat} (underWay : UnderWay run turn)
    (bound : passes run turn ≤ length) : passes run (turn + 1) ≤ length := by
  by_cases begins : (run turn).innermost = (run 0).innermost ∧ (run turn).passing.isSome = true
  · obtain ⟨item, passing⟩ := Option.isSome_iff_exists.mp begins.2
    have found := runs.itemAt_of_passing enters (start_of_sequence sequence) underWay begins.1
      passing
    have within := itemAt_eq_none (runs.lengthOf_eq enters sequence counted turn)
      (passes run turn)
    rw [passes_of_begins begins.1 begins.2]
    by_contra more
    rw [within.mpr (by omega)] at found
    cases found
  · rw [passes_of_not]
    · exact bound
    · rcases not_and_or.mp begins with outside | idle
      · exact .inr outside
      · exact .inl (by simpa using idle)

theorem passes_le {turn : Nat} (underWay : UnderWay run turn) :
    passes run (turn + 1) ≤ length := by
  induction turn with
  | zero => exact runs.passes_succ_le enters sequence counted underWay (Nat.zero_le _)
  | succ turn ih =>
      exact runs.passes_succ_le enters sequence counted underWay
        (ih fun earlier first last => underWay earlier first (Nat.le_succ_of_le last))

/-- The last pass does not come to an end if the loop is never left. -/
theorem last_pass (always : ∀ turn, UnderWay run turn)
    (passed : ∀ turn failure, (run turn).advance.1 ≠ .failed failure) :
    ∃ last, (run last).innermost = (run 0).innermost ∧ (run last).passing.isSome = true ∧
      ∀ later, last < later → (run later).innermost ≠ (run 0).innermost := by
  have begins {turn : Nat} (inside : (run turn).innermost = (run 0).innermost) :=
    runs.passing_of_inside enters (start_of_sequence sequence) (always (turn + 1)) inside
      (passed turn)
  -- The number of items that are left is the variant: each pass takes one of them.
  have search (left : Nat) (turn : Nat) (inside : (run turn).innermost = (run 0).innermost)
      (few : length ≤ passes run turn + left) :
      ∃ last, (run last).innermost = (run 0).innermost ∧ (run last).passing.isSome = true ∧
        ∀ later, last < later → (run later).innermost ≠ (run 0).innermost := by
    induction left generalizing turn with
    | zero =>
        have more := passes_of_begins inside (begins inside)
        have bound := runs.passes_le enters sequence counted (always turn)
        omega
    | succ left ih =>
        by_cases again : ∃ later, turn < later ∧ (run later).innermost = (run 0).innermost
        · obtain ⟨later, after, inside'⟩ := again
          have more := passes_of_begins inside (begins inside)
          have grown : passes run (turn + 1) ≤ passes run later := Nat.count_monotone _ after
          exact ih later inside' (by omega)
        · exact ⟨turn, inside, begins inside, fun later after same => again ⟨later, after, same⟩⟩
  exact search length 0 rfl (Nat.le_add_left _ _)

end

/-- No turn changes the length of an array that is there. So when a loop over an array or a text
is entered, then as long as it is under way no more passes have begun than there were items
when it was entered, and each of them binds the item and begins the body. When the loop is no
longer under way, then exactly as many passes have begun, or the context of the loop executes a
break or a return, or the turn fails. If it stays under way for ever and nothing fails, then
there is a last pass, after which the frame of the loop is never the innermost one again. -/
theorem loops_over_sequences_are_bounded {source : Value}
    (enters : (run 0).entering = some source)
    (sequence : (∃ reference, source = .array reference) ∨ ∃ text, source = .text text)
    {length : Nat} (counted : lengthOf (run 0).heap source = .ok length) :
    (∀ turn, (run turn).heap.KeepsLengths (run (turn + 1)).heap) ∧
      (∀ turn item, (run turn).passing = some item → (run turn).BeginsPass item) ∧
      (∀ turn, UnderWay run turn → passes run (turn + 1) ≤ length ∧
        ((run (turn + 1)).cursor? (run 0).innermost = none →
          passes run (turn + 1) = length ∨
            ((run turn).Leaves ∧ (run turn).stack.length = (run 0).stack.length) ∨
            ∃ failure, (run turn).advance.1 = .failed failure)) ∧
      ((∀ turn, UnderWay run turn) →
        (∀ turn failure, (run turn).advance.1 ≠ .failed failure) →
        ∃ last, (run last).innermost = (run 0).innermost ∧ (run last).passing.isSome = true ∧
          ∀ later, last < later → (run later).innermost ≠ (run 0).innermost) := by
  refine ⟨runs.keepsLengths, fun turn item => beginsPass_of_passing (runs.fine_at turn),
    fun turn underWay => ?_, runs.last_pass enters sequence counted⟩
  have bound := runs.passes_le enters sequence counted underWay
  refine ⟨bound, fun gone => ?_⟩
  cases runs.loopTurn_of_underWay enters (start_of_sequence sequence) underWay with
  | goesOn held =>
      rw [gone] at held
      cases held
  | left leaves depth => exact .inr (.inl ⟨leaves, depth⟩)
  | failed failed => exact .inr (.inr failed)
  | ends exhausted same =>
      have enough := (itemAt_eq_none (runs.lengthOf_eq enters sequence counted turn) _).mp exhausted
      exact .inl (by omega)

end Run

/-- The loop of this script goes through an array of two texts. Its body changes the variable. -/
theorem loop_over_two_texts :
    ∃ (run : Nat → Session) (reference : ArrayRef), Run run ∧
      (run 0).entering = some (.array reference) ∧
      lengthOf (run 0).heap (.array reference) = .ok 2 ∧
      (∀ turn, UnderWay run turn → passes run (turn + 1) ≤ 2) ∧
      UnderWay run 8 ∧ (run 9).cursor? (run 0).innermost = none ∧ passes run 9 = 2 := by
  have passed : ((Script.ofSource "for x in [\"a\", \"b\"]\nx = \"c\"\nend\n").toOption.any
      fun script => ((Session.new none).run script).toOption.any fun started =>
        let run := (started.turnsFrom 4).turnsFrom
        (run 0).enteringArray?.any (fun reference => ((run 0).heap.array reference).size == 2) &&
          (List.range 8).all (fun turn => ((run (turn + 1)).cursor? (run 0).innermost).isSome) &&
          ((run 9).cursor? (run 0).innermost).isNone && passes run 9 == 2) = true := by
    decide +kernel
  obtain ⟨script, started, accepted, begun, passed⟩ := eq_of_runs passed
  simp only [Bool.and_eq_true, beq_iff_eq, List.all_eq_true, List.mem_range,
    Option.isNone_iff_eq_none] at passed
  obtain ⟨⟨⟨enters, all⟩, gone⟩, counted⟩ := passed
  have tidy : (started.turnsFrom 4).Tidy :=
    ((Tidy.new none).run (Script.parsed_ofSource accepted) begun).turns 4
  obtain ⟨reference, entering, enters⟩ := (Option.any_eq_true _ _).mp enters
  have entering := entering_of_array entering
  have size : lengthOf ((started.turnsFrom 4).turnsFrom 0).heap (.array reference) = .ok 2 := by
    simp only [lengthOf, eq_of_beq enters]
  have bounded := (Run.of_turns tidy).loops_over_sequences_are_bounded entering
    (.inl ⟨reference, rfl⟩) size
  refine ⟨_, reference, .of_turns tidy, entering, size, fun turn underWay =>
    (bounded.2.2.1 turn underWay).1, fun turn first last => ?_, gone, counted⟩
  obtain ⟨before, rfl⟩ := Nat.exists_eq_succ_of_ne_zero (Nat.ne_of_gt first)
  exact all before last

end Session

end ScriptEngine
