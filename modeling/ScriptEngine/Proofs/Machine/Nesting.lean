import ScriptEngine.Proofs.Control.Nesting
import ScriptEngine.Proofs.Machine.Reached

/-!
# The frames of every context nest

In every session that a host can reach, the frames of every context nest like the
bodies of the statements of its own script, and a frame has a cursor only while it
stands on the loop that made the cursor.
-/

set_option autoImplicit false

namespace ScriptEngine

/-- The statement is one that waits for a value in this way. -/
def Continuation.Fits (script : Script) (this : StatementRef) (statement : Statement) :
    Continuation → Prop
  | .branch body rest otherwise following =>
      ∃ branches, statement = .branch branches otherwise ∧ body ∈ branches.map Prod.snd ∧
        (∀ test ∈ rest, test ∈ branches) ∧ following = script.next this
  | .whileLoop loop body => loop = this ∧ ∃ condition, statement = .whileLoop condition body
  | .forLoop loop item body span =>
      loop = this ∧ ∃ iterable, statement = .forLoop item iterable body span
  | _ => True

/-- The innermost frame stands on a statement, without a cursor. -/
def Context.Stands (context : Context) (this : StatementRef) (statement : Statement) : Prop :=
  context.current = some this ∧ context.script.statement? this = some statement ∧
    context.iteration = none

/-- While a context is in the middle of a statement, its innermost frame stands on
this statement and has no cursor. -/
def Activity.Stands (context : Context) : Activity → Prop
  | .resting => True
  | .evaluating continuation => ∃ this statement, context.Stands this statement ∧
      continuation.Fits context.script this statement
  | .calling continuation _ _ => ∃ this statement, context.Stands this statement ∧
      continuation.Fits context.script this statement
  | .declaring _ _ => ∃ this statement, context.Stands this statement

/-- All scripts are linked, and all frames nest. -/
def nesting : LocalInvariant where
  FunctionFine function := ∀ script entry, function.body = .script script entry →
    script.Linked ∧ ∀ first, entry = some first → first.index < script.statements.size
  Fine context activity := context.script.Linked ∧
    Frame.Nested context.script context.frames ∧ activity.Stands context
  ErrorFine _ := True
  Moves := Frame.KeepsCursors
  Fresh := Frame.Fresh

namespace Nesting

/-- A context whose frames nest and whose innermost frame stands on a statement. -/
structure Begun (context : Context) (heap : Heap) (this : StatementRef) (statement : Statement) :
    Prop where
  heapFine : nesting.HeapFine heap
  linked : context.script.Linked
  nested : Frame.Nested context.script context.frames
  stands : context.Stands this statement

variable {context : Context} {heap : Heap} {this : StatementRef} {statement : Statement}

/-- The statement is done, and the frames are as they should be. -/
private theorem done {after : Context} (heapFine : nesting.HeapFine heap)
    (linked : context.script.Linked) (kept : context.KeepsScope after)
    (nested : Frame.Nested context.script after.frames ∧
      Frame.OldCursors context.frames after.frames) :
    nesting.OutcomeFine context.frames (.done after heap) :=
  ⟨heapFine, ⟨kept.script ▸ linked, kept.script ▸ nested.1, trivial⟩, nested.2.keeps⟩

private theorem failed {after : Context} {failure : RuntimeError}
    (heapFine : nesting.HeapFine heap) (linked : context.script.Linked)
    (kept : context.KeepsScope after)
    (nested : Frame.Nested context.script after.frames ∧
      Frame.OldCursors context.frames after.frames) :
    nesting.OutcomeFine context.frames (.failed failure after heap) :=
  ⟨heapFine, ⟨kept.script ▸ linked, kept.script ▸ nested.1, trivial⟩, nested.2.keeps, trivial⟩

namespace Begun

variable (begun : Begun context heap this statement)

include begun

private theorem onHeap {grown : Heap} (functions : grown.functions = heap.functions) :
    Begun context grown this statement :=
  { begun with heapFine := begun.heapFine.of_keeps functions }

private theorem refused (failure : RuntimeError) :
    nesting.OutcomeFine context.frames (.failed failure context heap) :=
  failed begun.heapFine begun.linked (.refl context) ⟨begun.nested, .refl _⟩

private theorem proceeded : nesting.OutcomeFine context.frames (.done context.proceed heap) :=
  done begun.heapFine begun.linked context.keepsScope_proceed
    (Context.nested_proceed begun.linked begun.nested begun.stands.1 begun.stands.2.2)

private theorem evaluate (node : ExpressionRef) {continuation : Continuation}
    (fits : continuation.Fits context.script this statement) :
    nesting.OutcomeFine context.frames (.evaluate node continuation context heap) :=
  ⟨begun.heapFine, ⟨begun.linked, begun.nested, this, statement, begun.stands, fits⟩,
    (Frame.OldCursors.refl _).keeps⟩

private theorem enter {body fallback continueTarget breakTarget : Option StatementRef}
    (member : body ∈ statement.heads)
    (attached : statement.Attaches context.script this
      ⟨body, fallback, continueTarget, breakTarget, none⟩) :
    nesting.OutcomeFine context.frames
      (.done (context.enter body fallback continueTarget breakTarget) heap) :=
  done begun.heapFine begun.linked (context.keepsScope_enter _ _ _ _)
    (Context.nested_enter begun.linked begun.nested begun.stands.1 begun.stands.2.1 member attached)

end Begun

private theorem tryBranches {branches rest : List (ExpressionRef × Option StatementRef)}
    {otherwise : Option (Option StatementRef)}
    (begun : Begun context heap this (.branch branches otherwise))
    (left : ∀ test ∈ rest, test ∈ branches) :
    nesting.OutcomeFine context.frames
      (context.tryBranches heap rest otherwise (context.script.next this)) := by
  cases rest with
  | nil =>
      cases otherwise with
      | none => exact begun.proceeded
      | some body => exact begun.enter (by simp [Statement.heads]) ⟨rfl, rfl, rfl⟩
  | cons test rest =>
      obtain ⟨first, later⟩ := List.forall_mem_cons.mp left
      exact begun.evaluate test.1 ⟨branches, rfl, List.mem_map_of_mem first, later, rfl⟩

private theorem nextPass {item : String} {iterable : ExpressionRef} {body : Option StatementRef}
    {span : Span} (heapFine : nesting.HeapFine heap) (linked : context.script.Linked)
    (nested : Frame.Nested context.script context.frames) (current : context.current = some this)
    (found : context.script.statement? this = some (.forLoop item iterable body span))
    (iteration : Option Iteration) :
    nesting.OutcomeFine context.frames
      ((context.setIteration iteration).nextPass heap this item body) := by
  unfold Context.nextPass
  rw [Context.setIteration_setIteration]
  split
  · next value next _ =>
      rw [Context.setIteration_setIteration]
      have kept := context.keepsScope_setIteration (some next)
      obtain ⟨nested, keeps⟩ := Context.nested_setIteration nested current found (some next)
        fun _ => trivial
      have current := (context.current_setIteration (some next)).trans current
      rw [← kept.script] at linked found nested
      generalize context.setIteration (some next) = looping at *
      have attached : (Statement.forLoop item iterable body span).Attaches looping.script this
          ⟨body, some this, some this, some this, none⟩ := ⟨rfl, rfl, rfl⟩
      have entered := looping.keepsScope_enterLoopBody this body
      obtain ⟨opened, old⟩ := Context.nested_enter linked nested current found
        List.mem_cons_self attached
      exact ⟨heapFine.of_keeps rfl, ⟨entered.script ▸ linked, entered.script ▸ opened, trivial⟩,
        keeps.then old⟩
  · exact done heapFine linked
      ((context.keepsScope_setIteration none).trans (Context.keepsScope_proceed _))
      (Context.nested_leaveLoop linked nested current)

private theorem beginStatement (heapFine : nesting.HeapFine heap) (linked : context.script.Linked)
    (nested : Frame.Nested context.script context.frames) (current : context.current = some this)
    (found : context.script.statement? this = some statement) :
    nesting.OutcomeFine context.frames (context.beginStatement heap this statement) := by
  have idle (other : ¬statement.IsFor) : context.iteration = none := by
    obtain ⟨kind, evaluation, frames, ownsNames, returnValue⟩ := context
    cases frames with
    | nil => cases current
    | cons top rest => exact nested.seated.idle current found other
  have begun (other : ¬statement.IsFor) : Begun context heap this statement :=
    ⟨heapFine, linked, nested, current, found, idle other⟩
  cases statement with
  | expression node => exact (begun id).evaluate node trivial
  | print values =>
      cases values with
      | nil => exact (begun id).proceeded
      | cons first rest => exact (begun id).evaluate first trivial
  | assign target operator value span =>
      cases target with
      | name name => exact (begun id).evaluate value trivial
      | member object name => exact (begun id).evaluate object trivial
      | element object index => exact (begun id).evaluate object trivial
  | branch branches otherwise => exact tryBranches (begun id) fun _ member => member
  | whileLoop condition body => exact (begun id).evaluate condition ⟨rfl, condition, rfl⟩
  | forLoop item iterable body span =>
      simp only [Context.beginStatement]
      split
      · have pass := nextPass heapFine linked nested current found context.iteration
        rw [Context.setIteration_iteration] at pass
        exact pass
      · next idle =>
          have begun : Begun context heap this (.forLoop item iterable body span) :=
            ⟨heapFine, linked, nested, current, found, idle⟩
          exact begun.evaluate iterable ⟨rfl, iterable, rfl⟩
  | breakLoops count span =>
      have kept := context.keepsScope_breakOut count
      have broken := Context.nested_breakOut linked nested count
      simp only [Context.beginStatement]
      generalize context.breakOut count = answer at kept broken
      obtain ⟨answer, after⟩ := answer
      cases answer with
      | ok => exact done heapFine linked kept broken
      | error failure => exact failed heapFine linked kept broken
  | continueLoop span =>
      have kept := context.keepsScope_nextLoopPass
      have continued := Context.nested_nextLoopPass nested
      simp only [Context.beginStatement]
      generalize context.nextLoopPass = answer at kept continued
      obtain ⟨answer, after⟩ := answer
      cases answer with
      | ok => exact done heapFine linked kept continued
      | error failure => exact failed heapFine linked kept continued
  | returnValue value =>
      cases value with
      | none =>
          exact done heapFine linked (context.keepsScope_returnWith _) ⟨trivial, .nil _⟩
      | some node => exact (begun id).evaluate node trivial
  | pass => exact (begun id).proceeded
  | delete name span =>
      simp only [Context.beginStatement]
      split
      · exact ((begun id).onHeap rfl).proceeded
      · exact (begun id).refused _
  | define name parameters body =>
      refine done (LocalInvariant.HeapFine.of_keeps (heapFine.newFunction ?_) rfl) linked
        context.keepsScope_proceed (Context.nested_proceed linked nested current (idle id))
      rintro script entry ⟨⟩
      exact ⟨linked, fun first entry => linked.heads this _ found first (by simp [Statement.heads, entry])⟩
  | record name body span =>
      refine ⟨heapFine, ⟨linked, nested, this, _, current, found, idle id⟩,
        (Frame.OldCursors.refl _).keeps, fun members => ?_⟩
      have present := linked.heads this _ found
      have kept := (Context.block context.script members context.visible).keepsScope_enter body
        none none none
      obtain ⟨opened, fresh⟩ := Context.nested_entry context.script body
        (Context.block context.script members context.visible)
        (fun first entry => present first (by simp [Statement.heads, entry])) rfl
      refine ⟨⟨?_, ?_, trivial⟩, fresh⟩
      · rw [kept.script]
        exact linked
      · rw [kept.script]
        exact opened

private theorem deliver {continuation : Continuation} {value : Value}
    (begun : Begun context heap this statement)
    (fits : continuation.Fits context.script this statement) :
    nesting.OutcomeFine context.frames (context.deliver heap continuation value) := by
  have proceeded {grown : Heap} (functions : grown.functions = heap.functions) :
      nesting.OutcomeFine context.frames (.done context.proceed grown) :=
    (begun.onHeap functions).proceeded
  cases continuation with
  | discard => exact proceeded rfl
  | print line rest =>
      cases rest with
      | nil => exact begun.proceeded
      | cons next rest => exact begun.evaluate next trivial
  | assignName name operator span =>
      simp only [Context.deliver]
      split
      · next stored grown found =>
          exact proceeded (AssignOperator.keepsObjects_combine found).functions
      · exact begun.refused _
  | assignMemberOf name operator expression span =>
      simp only [Context.deliver]
      split
      · exact begun.evaluate expression trivial
      · exact begun.refused _
  | assignMember object name operator span =>
      simp only [Context.deliver]
      split
      · next stored grown found =>
          exact proceeded (AssignOperator.keepsObjects_combine found).functions
      · exact begun.refused _
  | assignElementOf index expression operator span => exact begun.evaluate index trivial
  | assignElementAt object expression operator span => exact begun.evaluate expression trivial
  | assignElement object index operator span =>
      simp only [Context.deliver]
      split
      · next stored grown found =>
          have combined := (AssignOperator.keepsObjects_combine found).functions
          split
          · next written stored =>
              exact proceeded ((Heap.functions_setElement stored).trans combined)
          · exact (begun.onHeap combined).refused _
      · exact begun.refused _
  | branch body rest otherwise following =>
      obtain ⟨branches, rfl, member, later, rfl⟩ := fits
      simp only [Context.deliver]
      split
      · exact begun.enter (List.mem_append_left _ member) ⟨rfl, rfl, rfl⟩
      · exact tryBranches begun later
  | whileLoop loop body =>
      obtain ⟨rfl, condition, rfl⟩ := fits
      simp only [Context.deliver]
      split
      · exact begun.enter List.mem_cons_self ⟨rfl, rfl, rfl⟩
      · exact begun.proceeded
  | forLoop loop item body span =>
      obtain ⟨rfl, iterable, rfl⟩ := fits
      simp only [Context.deliver]
      split
      · next iteration _ =>
          exact nextPass begun.heapFine begun.linked begun.nested begun.stands.1 begun.stands.2.1
            (some iteration)
      · exact begun.refused _
  | returnValue =>
      exact done begun.heapFine begun.linked (context.keepsScope_returnWith value)
        ⟨trivial, .nil _⟩

/-- What a context is in the middle of does not depend on how far the evaluation
has come. -/
theorem evaluated {activity : Activity} {evaluation : Evaluation}
    (same : ({ context with evaluation } : Context).script = context.script)
    (fine : nesting.Fine context activity) :
    nesting.Fine { context with evaluation } activity := by
  obtain ⟨linked, nested, stands⟩ := fine
  refine ⟨same ▸ linked, same ▸ nested, ?_⟩
  cases activity with
  | resting => trivial
  | evaluating continuation | calling continuation scope span =>
      obtain ⟨this, statement, ⟨current, found, idle⟩, fits⟩ := stands
      exact ⟨this, statement, ⟨current, same ▸ found, idle⟩, same ▸ fits⟩
  | declaring name span =>
      obtain ⟨this, statement, current, found, idle⟩ := stands
      exact ⟨this, statement, current, same ▸ found, idle⟩

theorem kept : nesting.Kept where
  ordinary _ := trivial
  native {function} isNative script entry body := by
    simp [Function.isNative, body] at isNative
  stays frames := (Frame.OldCursors.refl frames).keeps
  abandons {context _ evaluation} fine place := by
    have same : ({ context with evaluation } : Context).script = context.script := place.script
    exact ⟨same ▸ fine.1, same ▸ fine.2.1, trivial⟩
  begins fine current found heapFine := beginStatement heapFine fine.1 fine.2.1 current found
  skips {context this} fine current missing := by
    obtain ⟨linked, nested, _⟩ := fine
    obtain ⟨statement, found⟩ := Context.nested_current nested current
    rw [missing] at found
    cases found
  works fine turn := evaluated (Context.script_of_advance turn) fine
  calls fine turn := evaluated (Context.script_of_advance turn) fine
  fails _ _ := trivial
  delivers fine turn heapFine := by
    obtain ⟨linked, nested, this, statement, stands, fits⟩ :=
      evaluated (Context.script_of_advance turn) fine
    exact deliver ⟨heapFine, linked, nested, stands⟩ fits
  returns fine value := evaluated rfl fine
  declares {context _ _} fine := by
    obtain ⟨linked, nested, this, statement, current, found, idle⟩ := fine
    obtain ⟨proceeded, old⟩ := Context.nested_proceed linked nested current idle
    have same := context.keepsScope_proceed.script
    exact ⟨⟨same ▸ linked, same ▸ proceeded, trivial⟩, old.keeps⟩
  runs {script} parsed globals := by
    have linked := parsed.linked
    have same := (Context.base script globals).keepsScope_enter script.first none none none
    obtain ⟨opened, fresh⟩ := Context.nested_entry script script.first
      (Context.base script globals) linked.first rfl
    refine ⟨⟨?_, ?_, trivial⟩, fresh⟩
    · rw [same.script]
      exact linked
    · rw [same.script]
      exact opened
  breaks {context} fine count := by
    have same := (context.keepsScope_breakOut count).script
    obtain ⟨left, old⟩ := Context.nested_breakOut fine.1 fine.2.1 count
    exact ⟨⟨same ▸ fine.1, same ▸ left, trivial⟩, old.keeps⟩
  continues {context} fine := by
    have same := context.keepsScope_nextLoopPass.script
    obtain ⟨left, old⟩ := Context.nested_nextLoopPass fine.2.1
    exact ⟨⟨same ▸ fine.1, same ▸ left, trivial⟩, old.keeps⟩
  resets fine := ⟨⟨fine.1, trivial, trivial⟩, (Frame.OldCursors.nil _).keeps⟩
  enters {_ script entry} functionFine body locals globals := by
    obtain ⟨linked, present⟩ := functionFine script entry body
    have same := (Context.functionCall script locals globals).keepsScope_enter entry none none none
    obtain ⟨opened, fresh⟩ := Context.nested_entry script entry
      (Context.functionCall script locals globals) present rfl
    refine ⟨⟨?_, ?_, trivial⟩, fresh⟩
    · rw [same.script]
      exact linked
    · rw [same.script]
      exact opened

end Nesting

end ScriptEngine
