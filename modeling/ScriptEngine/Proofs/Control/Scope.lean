import ScriptEngine.Control.Context
import ScriptEngine.Proofs.Evaluation.Turn

/-!
# What control flow leaves alone

Moving on, opening frames and jumping change the frames of a context and make it
forget an evaluation, but they change neither the script that the context runs nor
the records in which it looks names up.
-/

set_option autoImplicit false

namespace ScriptEngine.Context

/-- The context is of the same kind, runs the same script, sees the same records
and owns its names exactly if it did before. -/
structure KeepsScope (before after : Context) : Prop where
  kind : after.kind = before.kind
  place : before.evaluation.KeepsPlace after.evaluation
  ownsNames : after.ownsNames = before.ownsNames

variable (context : Context)

theorem KeepsScope.refl : context.KeepsScope context := ⟨rfl, ⟨rfl, rfl⟩, rfl⟩

theorem KeepsScope.trans {first second third : Context} (early : first.KeepsScope second)
    (late : second.KeepsScope third) : first.KeepsScope third where
  kind := late.kind.trans early.kind
  place := ⟨late.place.script.trans early.place.script, late.place.chain.trans early.place.chain⟩
  ownsNames := late.ownsNames.trans early.ownsNames

theorem KeepsScope.script {before after : Context} (kept : before.KeepsScope after) :
    after.script = before.script :=
  kept.place.script

theorem keepsScope_modifyFrame (change : Frame → Frame) :
    context.KeepsScope (context.modifyFrame change) := by
  unfold modifyFrame
  split
  · exact .refl _
  · exact ⟨rfl, ⟨rfl, rfl⟩, rfl⟩

theorem keepsScope_setIteration (iteration : Option Iteration) :
    context.KeepsScope (context.setIteration iteration) :=
  context.keepsScope_modifyFrame _

theorem keepsScope_resumeAt (statement : Option StatementRef) :
    context.KeepsScope (context.resumeAt statement) := by
  unfold resumeAt
  split
  · exact .refl _
  · exact ⟨rfl, ⟨rfl, rfl⟩, rfl⟩

theorem keepsScope_frames (frames : List Frame) : context.KeepsScope { context with frames } :=
  ⟨rfl, ⟨rfl, rfl⟩, rfl⟩

theorem keepsScope_proceed : context.KeepsScope context.proceed :=
  (context.keepsScope_frames _).trans (keepsScope_resumeAt _ _)

theorem keepsScope_enter (statement fallback continueTarget breakTarget : Option StatementRef) :
    context.KeepsScope (context.enter statement fallback continueTarget breakTarget) := by
  have opened : context.KeepsScope
      { context with
        frames := ⟨statement, fallback, continueTarget, breakTarget, none⟩ :: context.frames
        evaluation := context.evaluation.reset } := ⟨rfl, ⟨rfl, rfl⟩, rfl⟩
  unfold enter
  split
  · exact opened.trans (keepsScope_proceed _)
  · exact opened

theorem keepsScope_enterLoopBody (loop : StatementRef) (body : Option StatementRef) :
    context.KeepsScope (context.enterLoopBody loop body) :=
  context.keepsScope_enter body (some loop) (some loop) (some loop)

theorem keepsScope_nextLoopPass : context.KeepsScope context.nextLoopPass.2 := by
  unfold nextLoopPass
  split
  · exact (context.keepsScope_frames _).trans (keepsScope_resumeAt _ _)
  · exact context.keepsScope_frames _

theorem keepsScope_breakOut (count : Nat) : context.KeepsScope (context.breakOut count).2 := by
  unfold breakOut
  split
  · exact .refl _
  · dsimp only
    split
    · exact context.keepsScope_frames _
    · split
      · exact (((context.keepsScope_frames _).trans (keepsScope_resumeAt _ _)).trans
          (keepsScope_setIteration _ _)).trans (keepsScope_proceed _)
      · exact context.keepsScope_frames _

theorem keepsScope_returnWith (value : Value) : context.KeepsScope (context.returnWith value) :=
  ⟨rfl, ⟨rfl, rfl⟩, rfl⟩

end ScriptEngine.Context
