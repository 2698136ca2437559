import ScriptEngine.Proofs.Machine.Alike
import ScriptEngine.Proofs.Machine.Scopes
import ScriptEngine.Proofs.Machine.Suspension
import ScriptEngine.Proofs.Value.Replica

/-!
# Every script starts afresh

A script that has come to its end leaves objects and output behind, and nothing else, also when
it ended in an error deep in calls, record blocks and loops. The contexts that are kept after
an error do not show in the next run: the next script is accepted, and what it does depends
only on what can be reached from the globals. It does the same in a new session that has a
copy of these objects (`Session.scripts_start_afresh`).
-/

set_option autoImplicit false

namespace ScriptEngine

/-- Both runs have come to nothing so far, or to their end, or fail alike. -/
inductive Answer.Alike {α : Type} (pairing : Pairing) : Answer α → Answer α → Prop where
  | value (value : α) : Alike pairing (.value value) (.value value)
  | failed {failure₁ failure₂ : RuntimeError} (failure : failure₁.Alike pairing failure₂) :
      Alike pairing (.failed failure₁) (.failed failure₂)
  | unfinished : Alike pairing .unfinished .unfinished

theorem Answer.Alike.eq {α : Type} {answer₁ answer₂ : Answer α}
    (answers : answer₁.Alike .identity answer₂) : answer₁ = answer₂ := by
  cases answers with
  | value | unfinished => rfl
  | failed failure => exact congrArg Answer.failed failure.eq

namespace Session

/-!
## The contexts of a script
-/

theorem outermost_cons {old new : Activation} (scope : old.context.KeepsScope new.context)
    {below : List Activation} {bottom : Activation} (last : bottom ∈ (new :: below).getLast?) :
    ∃ origin ∈ (old :: below).getLast?, origin.context.KeepsScope bottom.context := by
  cases below with
  | nil =>
      obtain rfl : new = bottom := by simpa using last
      exact ⟨old, rfl, scope⟩
  | cons caller below => exact ⟨bottom, last, .refl _⟩

/-- The outermost context after a turn goes on in the scope of the one before it. -/
theorem Turned.outermost {records : RecordRef → Prop} {stack after : List Activation}
    {heap grown : Heap} {progress : Progress}
    (turned : Turned records stack heap progress after grown) {bottom : Activation}
    (last : bottom ∈ after.getLast?) :
    ∃ origin ∈ stack.getLast?, origin.context.KeepsScope bottom.context := by
  cases turned with
  | rests => exact ⟨bottom, last, .refl _⟩
  | @goes popped below old _ _ _ _ scope =>
      obtain ⟨origin, lowest, kept⟩ := outermost_cons scope last
      refine ⟨origin, ?_, kept⟩
      rw [List.getLast?_append, lowest]
      rfl
  | opens scope => exact outermost_cons scope last
  | @declares _ caller below =>
      exact @outermost_cons caller _ caller.context.keepsScope_proceed below _ last

/-- A script is running, and the host has done nothing since it has begun. The contexts but the
innermost wait for the ones above them, and the outermost does not own its names. -/
structure Undisturbed (session : Session) : Prop where
  staged : session.Staged
  shadows : session.Shadows session
  above : Above [] session.stack
  outermost : ∀ bottom ∈ session.stack.getLast?, bottom.context.ownsNames = false

/-- No script is running, and the contexts that are left own no names. -/
structure Cleared (session : Session) : Prop where
  staged : session.Staged
  stopped : session.state = .stopped
  unlimited : session.timeLimit = none
  quiet : session.heap.muted = session.heap
  borrows : ∀ activation ∈ session.stack, activation.context.ownsNames = false

/-- The script is about to run from its first statement. -/
def begin (session : Session) (script : Script) : Session :=
  { session with
    stack := [⟨(Context.base script session.globals).enter script.first none none none, .resting⟩]
    startedAt := some session.now
    suspendedAt := none
    state := .running }

/-- Contexts that own no names leave nothing to be cleared. -/
theorem releaseAll_eq {stack : List Activation} (heap : Heap)
    (borrows : ∀ activation ∈ stack, activation.context.ownsNames = false) :
    releaseAll stack heap = heap := by
  unfold releaseAll
  induction stack with
  | nil => rfl
  | cons top below ih =>
      obtain ⟨topBorrows, belowBorrows⟩ := List.forall_mem_cons.mp borrows
      have kept : top.context.release heap = heap := by simp [Context.release, topBorrows]
      rw [List.foldl_cons, kept, ih belowBorrows]

theorem Cleared.run {session : Session} (cleared : session.Cleared) (script : Script) :
    session.run script = .ok (session.begin script) := by
  unfold Session.run Session.clear
  rw [if_neg (fun live => live cleared.stopped), releaseAll_eq _ cleared.borrows]
  rfl

theorem Cleared.begin {session : Session} (cleared : session.Cleared) {script : Script}
    (parsed : script.Parsed) : (session.begin script).Undisturbed where
  staged := cleared.staged.run parsed (cleared.run script)
  shadows := by
    refine ⟨?_, rfl, cleared.unlimited, (Above.single rfl).free⟩
    simp only [Session.begin, mutedAt, cleared.quiet]
  above := .single rfl
  outermost bottom last := by
    obtain rfl := Option.some.inj last
    exact ((Context.base script session.globals).keepsScope_enter script.first none none
      none).ownsNames

namespace Undisturbed

variable {session : Session} (undisturbed : session.Undisturbed)

include undisturbed

/-- A session that is its own shadow is so after every turn. -/
theorem shadows_after (timeless : session.Timeless) {progress : Progress} {after : Session}
    (turn : session.advance = (progress, after)) : after.Shadows after := by
  obtain ⟨later, same, beside⟩ := undisturbed.shadows.advance timeless
  rw [turn] at same beside
  obtain rfl := (Prod.mk.inj same).2
  exact beside

theorem outermost_after {progress : Progress} {after : Session}
    (turn : session.advance = (progress, after)) :
    ∀ bottom ∈ after.stack.getLast?, bottom.context.ownsNames = false := by
  intro bottom last
  have turned := advance_turned undisturbed.staged.layout.among
  rw [turn] at turned
  obtain ⟨origin, lowest, scope⟩ := turned.outermost last
  exact scope.ownsNames.trans (undisturbed.outermost origin lowest)

theorem advance (timeless : session.Timeless) {after : Session}
    (turn : session.advance = (.working, after)) : after.Undisturbed where
  staged := by
    have staged := undisturbed.staged.advance
    rwa [turn] at staged
  shadows := undisturbed.shadows_after timeless turn
  above := by
    have above := advance_above undisturbed.above
    rw [turn] at above
    cases above with
    | stays above => exact above
    | returned waits => cases waits
  outermost := undisturbed.outermost_after turn

/-- When a script ends or fails one context is left, which owns no names. -/
theorem cleared (timeless : session.Timeless) {progress : Progress} {after : Session}
    (turn : session.advance = (progress, after)) {outcome : Answer Unit}
    (ends : progress.outcome? = some outcome) : Cleared { after with state := .stopped } where
  staged := by
    have staged := undisturbed.staged.advance
    rw [turn] at staged
    exact staged.other ⟨rfl, rfl⟩ rfl (Nat.le_refl _)
  stopped := rfl
  unlimited := (undisturbed.shadows_after timeless turn).unlimited
  quiet := (congrArg Session.heap (undisturbed.shadows_after timeless turn).same).symm
  borrows := by
    have above := advance_above undisturbed.above
    rw [turn] at above
    obtain ⟨bottom, stack⟩ : ∃ bottom, after.stack = [bottom] := by
      cases above with
      | stays | returned | endless => cases ends
      | ended _ stack _ => exact ⟨_, stack⟩
      | failed awaited stack =>
          have free : Free [] := fun _ member => nomatch member
          obtain ⟨bottom, _, unwound⟩ := unwound_free awaited free
          exact ⟨bottom, stack.trans unwound⟩
    rw [stack, List.forall_mem_singleton]
    exact undisturbed.outermost_after turn bottom (by rw [stack]; rfl)

/-- What a script leaves when it has come to its end. -/
theorem execute (timeless : session.Timeless) {turns : Nat} {answer : Answer Unit}
    {after : Session} (executed : Session.execute turns session = (answer, after))
    (ended : answer ≠ .unfinished) : after.Cleared := by
  induction turns generalizing session with
  | zero =>
      cases executed
      exact absurd rfl ended
  | succ turns ih =>
      have running := undisturbed.shadows.running
      simp only [Session.execute, running, ne_eq, not_true, decide_false, Bool.and_false]
        at executed
      rcases turn : session.advance with ⟨progress, middle⟩
      rw [turn] at executed
      cases progress with
      | working =>
          have one : Runs 1 session middle := ⟨running, middle, turn, rfl⟩
          exact ih (undisturbed.advance timeless turn) (timeless.later one) executed
      | idle | failed =>
          cases executed
          exact undisturbed.cleared timeless turn rfl
      | endless =>
          cases executed
          exact absurd rfl ended

end Undisturbed

/-!
## Scripts one after another
-/

/-- The session has run scripts one after another, each to its end. None had a time limit,
looked at the clock or asked to be suspended. -/
inductive Served : Session → Prop where
  | new : Served (Session.new none)
  | install {session : Session} (served : session.Served) (name : String)
      (parameters : List String) {action : NativeAction} (quiet : action.muted = action) :
      (session.install name parameters action).Served
  | script {session started after : Session} {source : String} {script : Script} {turns : Nat}
      {answer : Answer Unit} (served : session.Served)
      (accepted : Script.ofSource source = .ok script)
      (begun : session.run script = .ok started) (timeless : started.Timeless)
      (executed : execute turns started = (answer, after)) (ended : answer ≠ .unfinished) :
      after.Served

theorem Served.cleared {session : Session} (served : session.Served) : session.Cleared := by
  induction served with
  | new =>
      exact ⟨.new none, rfl, rfl, congrArg Session.heap (muted_new none), List.forall_mem_nil _⟩
  | @install session _ name parameters action quiet ih =>
      refine ⟨ih.staged.install name parameters action, ih.stopped, ih.unlimited, ?_, ih.borrows⟩
      simp only [Session.install, installNative_muted, ih.quiet, quiet]
  | script _ accepted begun timeless executed ended ih =>
      obtain rfl := Except.ok.inj ((ih.run _).symm.trans begun)
      exact (ih.begin (Script.parsed_ofSource accepted)).execute timeless executed ended

/-!
## Two runs of a script
-/

/-- Scripts that begin over heaps that are alike. -/
theorem alike_begin {pairing : Pairing} {session₁ session₂ : Session}
    (heap : session₁.heap.Alike pairing session₂.heap)
    (globals : pairing.records session₁.globals session₂.globals) {written : String}
    (output : session₁.output = written ++ session₂.output)
    (unlimited₁ : session₁.timeLimit = none) (unlimited₂ : session₂.timeLimit = none)
    {script : Script} (plain : script.Plain) :
    (session₁.begin script).Alike pairing written (session₂.begin script) where
  state := rfl
  stack := .cons ⟨(Context.alike_base plain globals).enter script.first none none none, .resting⟩
    .nil
  heap := heap
  globals := globals
  output := output
  unlimited₁ := unlimited₁
  unlimited₂ := unlimited₂

/-- Sessions that are alike come to the same end, after as many turns. -/
theorem Alike.execute {pairing : Pairing} {written : String} {session₁ session₂ : Session}
    (alike : session₁.Alike pairing written session₂) (undisturbed : session₁.Undisturbed)
    (timeless : session₁.Timeless) (turns : Nat) :
    LeftAlike pairing written (Answer.Alike pairing) (Session.execute turns session₁)
      (Session.execute turns session₂) := by
  induction turns generalizing session₁ session₂ with
  | zero => exact ⟨.unfinished, alike⟩
  | succ turns ih =>
      have running₁ := undisturbed.shadows.running
      have running₂ := alike.state.symm.trans running₁
      have taken := alike.advance (timeless 0 session₁ rfl)
      simp only [Session.execute, running₁, running₂, ne_eq, not_true, decide_false,
        Bool.and_false]
      rcases turn : session₁.advance with ⟨progress₁, after₁⟩
      rw [turn] at taken
      generalize session₂.advance = answer₂ at taken ⊢
      obtain ⟨progress₂, after₂⟩ := answer₂
      obtain ⟨progress, after⟩ := taken
      dsimp only at progress after
      cases progress with
      | working =>
          have one : Runs 1 session₁ after₁ := ⟨running₁, after₁, turn, rfl⟩
          exact ih after (undisturbed.advance timeless turn) (timeless.later one)
      | idle => exact ⟨.value (), { after with state := rfl }⟩
      | failed failure => exact ⟨.failed failure, { after with state := rfl }⟩
      | endless => exact ⟨.unfinished, after⟩

/-- A new session whose globals and objects have been replaced. -/
def newWith (heap : Heap) (globals : RecordRef) : Session :=
  { Session.new none with heap, globals }

theorem run_newWith (heap : Heap) (globals : RecordRef) (script : Script) :
    (newWith heap globals).run script = .ok ((newWith heap globals).begin script) := rfl

/-- Both runs end in the same way, with the same report if they fail. The first has written
what the second has, after `written`. The objects that can be reached from the globals are
alike. -/
structure SameEnd (pairing : Pairing) (written : String) (ran₁ ran₂ : Answer Unit × Session) :
    Prop where
  answer : ran₁.1.Alike pairing ran₂.1
  reports : ∀ failure₁ failure₂ lines source, ran₁.1 = .failed failure₁ →
    ran₂.1 = .failed failure₂ →
      failure₁.oneLine ran₁.2.heap lines = failure₂.oneLine ran₂.2.heap lines ∧
      failure₁.title ran₁.2.heap = failure₂.title ran₂.2.heap ∧
      failure₁.remark? ran₁.2.heap source = failure₂.remark? ran₂.2.heap source
  output : ran₁.2.output = written ++ ran₂.2.output
  globals : pairing.records ran₁.2.globals ran₂.2.globals
  contents : ran₁.2.heap.SameContents pairing ran₂.2.heap

theorem LeftAlike.sameEnd {pairing : Pairing} {written : String}
    {ran₁ ran₂ : Answer Unit × Session}
    (left : LeftAlike pairing written (Answer.Alike pairing) ran₁ ran₂) :
    SameEnd pairing written ran₁ ran₂ := by
  obtain ⟨answer, alike⟩ := left
  refine ⟨answer, ?_, alike.output, alike.globals, alike.heap.toSameContents⟩
  intro failure₁ failure₂ lines source failed₁ failed₂
  rw [failed₁, failed₂] at answer
  cases answer with
  | failed failure => exact failure.reports alike.heap lines source

/-- However the scripts before have ended, the next one is accepted. Unless it looks at the
clock it does the same in a new session with the same objects and globals. The answer, the
error, the output and the objects in the end are the same, or both go on forever. Nothing
depends on objects that cannot be reached from the globals: in a new session with a copy of
the others everything is the same, up to the objects that stand for each other. -/
theorem scripts_start_afresh {session : Session} (served : session.Served) {source : String}
    {script : Script} (accepted : Script.ofSource source = .ok script) :
    ∃ started, session.run script = .ok started ∧ started.heap = session.heap ∧
      started.globals = session.globals ∧ (started.Timeless →
        (∃ fresh, (newWith session.heap session.globals).run script = .ok fresh ∧
          ∀ turns, (execute turns started).1 = (execute turns fresh).1 ∧
            (execute turns started).2.output =
              session.output ++ (execute turns fresh).2.output ∧
            (execute turns started).2.heap = (execute turns fresh).2.heap ∧
            (execute turns started).2.globals = (execute turns fresh).2.globals) ∧
        ∀ pairing heap globals, session.heap.CopiedTo pairing heap →
          pairing.records session.globals globals →
            ∃ fresh later, (newWith heap globals).run script = .ok fresh ∧
              pairing.Within later ∧
              ∀ turns, SameEnd later session.output (execute turns started)
                (execute turns fresh)) := by
  have cleared := served.cleared
  have parsed := Script.parsed_ofSource accepted
  have undisturbed := cleared.begin parsed
  have scripts := cleared.staged.layout.among.heap.scripts
  have written : session.output = session.output ++ "" := (String.append_empty).symm
  refine ⟨session.begin script, cleared.run script, rfl, rfl, fun timeless => ⟨?_, ?_⟩⟩
  · refine ⟨_, run_newWith session.heap session.globals script, fun turns => ?_⟩
    have same : Heap.Alike .identity session.heap (newWith session.heap session.globals).heap :=
      Heap.alike_refl scripts
    obtain ⟨answer, ended⟩ := (alike_begin same rfl written cleared.unlimited rfl
      parsed.plain).execute undisturbed timeless turns
    exact ⟨answer.eq, ended.output, ended.heap.eq, ended.globals⟩
  · intro pairing heap globals copied paired
    refine ⟨_, copied.extended, run_newWith heap globals script, copied.within, fun turns => ?_⟩
    have alike : session.heap.Alike copied.extended (newWith heap globals).heap :=
      copied.alike scripts
    exact ((alike_begin alike (.inl paired) written cleared.unlimited rfl
      parsed.plain).execute undisturbed timeless turns).sameEnd

/-- The first script fails in a loop of a call in a loop of a record's block. The next one uses
a function that it has defined, and fails to leave a loop. -/
theorem scripts_start_afresh_after_failure :
    ∃ first second started failed session again fresh failure pairing,
      Script.ofSource ("def f(a)\nwhile True\na += 1\nend\nend\n" ++
          "record r\nfor i in \"x\"\nprint i\nf(i)\nend\nend\n") = .ok first ∧
      (Session.new none).run first = .ok started ∧
      execute 100 started = (.failed failed, session) ∧ session.Served ∧
      Script.ofSource "print typeof(f)\nbreak\n" = .ok second ∧
      session.run second = .ok again ∧ again.Timeless ∧
      (newWith session.heap session.globals).run second = .ok fresh ∧
      (execute 100 again).1 = .failed failure ∧ (execute 100 fresh).1 = .failed failure ∧
      (execute 100 again).2.output = "x\nFunction\n" ∧
      session.output ++ (execute 100 fresh).2.output = "x\nFunction\n" ∧
      session.heap.CopiedTo pairing session.heap ∧
      pairing.records session.globals session.globals ∧
      ∃ copy later, (newWith session.heap session.globals).run second = .ok copy ∧
        SameEnd later session.output (execute 100 again) (execute 100 copy) := by
  have passed : ((Script.ofSource ("def f(a)\nwhile True\na += 1\nend\nend\n" ++
      "record r\nfor i in \"x\"\nprint i\nf(i)\nend\nend\n")).toOption.any fun first =>
        ((Session.new none).run first).toOption.any fun started =>
          !mayCallClock 200 started && fails (execute 100 started) fun session =>
            session.heap.isClosed &&
              (Script.ofSource "print typeof(f)\nbreak\n").toOption.any fun second =>
                (session.run second).toOption.any fun again =>
                  !mayCallClock 200 again && fails (execute 100 again) fun after =>
                    after.output == "x\nFunction\n") = true := by decide +kernel
  obtain ⟨first, accepted, passed⟩ := ok_of_any passed
  obtain ⟨started, begun, passed⟩ := ok_of_any passed
  rw [Bool.and_eq_true, Bool.not_eq_true'] at passed
  have timeless := timeless_of_mayCallClock passed.1
  obtain ⟨failed, session, executed, passed⟩ := eq_of_fails passed.2
  rw [Bool.and_eq_true] at passed
  have copied := Heap.copiedTo_self passed.1
  obtain ⟨second, laterAccepted, passed⟩ := ok_of_any passed.2
  obtain ⟨again, laterBegun, passed⟩ := ok_of_any passed
  rw [Bool.and_eq_true, Bool.not_eq_true'] at passed
  have laterTimeless := timeless_of_mayCallClock passed.1
  obtain ⟨failure, after, ended, printed⟩ := eq_of_fails passed.2
  have served : session.Served := .script .new accepted begun timeless executed nofun
  obtain ⟨other, next, _, _, agrees⟩ := scripts_start_afresh served laterAccepted
  obtain rfl := Except.ok.inj (next.symm.trans laterBegun)
  obtain ⟨⟨fresh, freshBegun, same⟩, copies⟩ := agrees laterTimeless
  have paired : (Pairing.present session.heap).records session.globals session.globals :=
    ⟨rfl, served.cleared.staged.layout.present⟩
  obtain ⟨copy, later, copyBegun, _, sameEnd⟩ := copies _ _ _ copied paired
  obtain ⟨answer, output, _⟩ := same 100
  rw [ended] at answer output
  have text := eq_of_beq printed
  exact ⟨first, second, started, failed, session, other, fresh, failure, _, accepted, begun,
    executed, served, laterAccepted, next, laterTimeless, freshBegun, by rw [ended], answer.symm,
    by rw [ended, text], output.symm.trans text, copied, paired, copy, later, copyBegun,
    sameEnd 100⟩

end Session

end ScriptEngine
