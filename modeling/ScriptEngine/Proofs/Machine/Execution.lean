import Mathlib
import ScriptEngine.Proofs.Machine.Observed
import ScriptEngine.Proofs.Machine.Statement

/-!
# Running a script follows the recursion over its tree

Calls are followed for as many turns as they may be nested, so that whole scripts
are. A script that the parser accepts therefore ends in a session exactly as it
does in the recursion over its statements.
-/

set_option autoImplicit false

namespace ScriptEngine

open Session (Runs Sound)

private theorem runNative_stack {action : NativeAction} (plain : action.Plain) (session : Session)
    (stack : List Activation) (arguments : List Value) (receiver : Option Value) :
    ({ session with stack } : Session).runNative action arguments receiver =
      ((session.runNative action arguments receiver).1,
        { (session.runNative action arguments receiver).2 with stack }) := by
  cases action with
  | length | typeName | text | number | clock | rest => rfl
  | range | memberNames | hasMember =>
      simp only [Session.runNative]
      split <;> rfl
  | suspend | report => exact plain.elim

private theorem runNative_sound {action : NativeAction} (plain : action.Plain) {session : Session}
    (sound : Sound session) (arguments : List Value) (receiver : Option Value) :
    Sound (session.runNative action arguments receiver).2 := by
  cases action with
  | length | typeName | text | number | clock | rest => exact sound
  | range | memberNames | hasMember =>
      simp only [Session.runNative]
      split
      · exact { sound with }
      · exact sound
  | suspend | report => exact plain.elim

private theorem beginCall_stack (session : Session) (stack : List Activation)
    (request : CallRequest) (scope : Option Value) (context : Context) (continuation : Continuation)
    (below : List Activation) :
    ({ session with stack } : Session).beginCall request scope context continuation below =
      session.beginCall request scope context continuation below := by
  unfold Session.beginCall
  dsimp only
  split
  · rfl
  · split
    · rfl
    · rfl

namespace Place

variable {place : Place} {patience : Nat} {frames : List Frame} {continuation : Continuation}
  {session config : Session} {request : CallRequest} {scope : Option Value}
  {after : Evaluation}

/-- The next turn begins a call. -/
private def Calls (place : Place) (frames : List Frame) (continuation : Continuation)
    (request : CallRequest) (scope : Option Value) (after : Evaluation)
    (session config : Session) : Prop :=
  config.state = .running ∧ config.advance = session.beginCall request scope
    { place.context frames with evaluation := after } continuation place.below

/-- Where the result of a call arrives. -/
private def Returned (place : Place) (frames : List Frame) (continuation : Continuation)
    (scope : Option Value) (after : Evaluation) (value : Value) (session config : Session) : Prop :=
  Sound session ∧ config = place.evaluating frames continuation (after.pushResult value scope) session

private theorem refused {cause : RuntimeCause} {failed : Session}
    (placed : after.chain = place.chain) (running : config.state = .running)
    (turn : config.advance = failed.raise (.placed cause request.span)
      ⟨{ place.context frames with evaluation := after }, .evaluating continuation⟩ place.below) :
    (place.machine patience).Fails (.placed cause request.span) failed config :=
  ⟨0, config, _, rfl, running, rfl, congrArg ScopeChain.names placed, turn⟩

private theorem native_follows {action : NativeAction} (sound : Sound session)
    (placed : after.chain = place.chain)
    (arity : (session.heap.function request.function).checkArity request.arguments.length = .ok ())
    (body : (session.heap.function request.function).body = .native action)
    (plain : action.Plain)
    (calls : place.Calls frames continuation request scope after session config) :
    (place.machine patience).Follows config
      (place.Returned frames continuation scope after)
      ((Effect.native action request.arguments request.receiver).locatedAt request.span session) := by
  obtain ⟨running, turn⟩ := calls
  simp only [Session.beginCall, arity, body] at turn
  rw [runNative_stack plain session] at turn
  have sound := runNative_sound plain sound request.arguments request.receiver
  unfold Effect.locatedAt Effect.native
  generalize session.runNative action request.arguments request.receiver = answer at turn sound ⊢
  obtain ⟨result, last⟩ := answer
  cases result with
  | ok value => exact ⟨_, reaches_of_turn running turn, sound, rfl⟩
  | error cause => exact refused placed running turn

/-- Where the body of a function runs. -/
private def inCall (place : Place) (frames : List Frame) (continuation : Continuation)
    (scope : Option Value) (after : Evaluation) (span : Span) (script : Script)
    (locals globals : RecordRef) : Place :=
  ⟨⟨.function, script, ⟨locals, [globals]⟩, true⟩,
    ⟨{ place.context frames with evaluation := after }, .calling continuation scope span⟩ ::
      place.below⟩

private theorem openLocals_eq (session : Session) (script : Script) (entry : Option StatementRef)
    (parameters : List String) (globals : Option RecordRef) (arguments : List Value)
    (receiver : Option Value) :
    ∃ locals heap, heap.functions = session.heap.functions ∧
      Effect.openLocals parameters arguments receiver session =
        (.value locals, { session with heap }) ∧
      session.callContext script entry parameters globals arguments receiver =
        ((Context.functionCall script locals (globals.getD session.globals)).enter entry none none
          none, { session with heap }) := by
  refine ⟨_, _, ?_, rfl, ?_⟩
  · cases receiver with
    | none => exact Heap.functions_bindParameters _ _ _ _
    | some value => exact Heap.functions_bindParameters _ _ _ _
  · cases receiver <;> rfl

/-- A body that is executed over its locals, which are cleared in the end. -/
private theorem body_follows {script : Script} {entry : Option StatementRef}
    {body : Effect Exit} {locals globals : RecordRef} {start : Session}
    (placed : after.chain = place.chain)
    (follows :
      let inner := place.inCall frames continuation scope after request.span script locals globals
      (inner.machine patience).Follows start (inner.SettledBlock [Frame.entry entry] 0)
        (body session)) :
    (place.machine patience).Follows start (place.Returned frames continuation scope after)
      ((do
        let value ← Effect.clearingOnFailure locals do
          let exit ← body
          Effect.tick
          return exit.value
        Effect.changeHeap fun heap => heap.clearRecord locals
        return value : Effect Value).locatedAt request.span session) := by
  have ran : (do
        let value ← Effect.clearingOnFailure locals do
          let exit ← body
          Effect.tick
          return exit.value
        Effect.changeHeap fun heap => heap.clearRecord locals
        return value : Effect Value).locatedAt request.span session =
      match body session with
      | (.value exit, last) => (.value exit.value, { last with
          now := last.now + 1
          heap := last.heap.clearRecord locals })
      | (.failed failure, last) => (.failed (failure.withDefaultSpan request.span),
          { last with heap := last.heap.clearRecord locals })
      | (.unfinished, last) => (.unfinished, last) := by
    simp only [Bind.bind, Effect.bind, Effect.clearingOnFailure, Effect.locatedAt]
    generalize body session = answer
    obtain ⟨answer, last⟩ := answer
    cases answer <;> rfl
  rw [ran]
  dsimp only at follows
  generalize body session = answer at follows ⊢
  obtain ⟨answer, last⟩ := answer
  cases answer with
  | value exit =>
      obtain ⟨stop, reached, settled⟩ := follows
      obtain ⟨running, context, owns, names, value, completes⟩ := turn_of_ended rfl settled
      obtain ⟨sound, _, rfl⟩ := settled
      simp only [Session.complete, Context.release, owns, names, value, inCall, if_true] at completes
      have completed := (place.machine patience).trans reached (reaches_of_turn running completes)
      exact ⟨_, completed, sound.tick.onHeap rfl, rfl⟩
  | failed failure =>
      obtain ⟨turns, stop, top, runs, running, owns, names, raised⟩ := follows
      exact ⟨turns, stop, _, runs, running, rfl, congrArg ScopeChain.names placed,
        raised.trans (raise_below rfl owns names)⟩
  | unfinished => exact follows

private theorem script_follows {script : Script} {entry : Option StatementRef}
    {body : List StatementTree} (sound : Sound session) (placed : after.chain = place.chain)
    (arity : (session.heap.function request.function).checkArity request.arguments.length = .ok ())
    (isScript : (session.heap.function request.function).body = .script script entry)
    (read : script.block? entry = some body)
    (bodyFollows : ∀ locals globals session, Sound session →
      let inner := place.inCall frames continuation scope after request.span script locals globals
      (inner.machine patience).Follows
        (inner.resting ((inner.context [Frame.entry entry]).goTo entry) session)
        (inner.SettledBlock [Frame.entry entry] 0)
        (StatementTree.executeBlock (Structured.call patience) patience script
          ⟨locals, [globals]⟩ 0 body session))
    (calls : place.Calls frames continuation request scope after session config) :
    (place.machine (patience + 1)).Follows config
      (place.Returned frames continuation scope after)
      ((Structured.call (patience + 1) request).locatedAt request.span session) := by
  obtain ⟨running, turn⟩ := calls
  obtain ⟨locals, heap, same, opened, called⟩ := openLocals_eq session script entry
    (session.heap.function request.function).parameters
    (session.heap.function request.function).globals request.arguments request.receiver
  have ran : (Structured.call (patience + 1) request).locatedAt request.span session =
      (do
        let value ← Effect.clearingOnFailure locals do
          let exit ← StatementTree.executeBlock (Structured.call patience) patience script
            ⟨locals, [(session.heap.function request.function).globals.getD session.globals]⟩ 0 body
          Effect.tick
          return exit.value
        Effect.changeHeap fun heap => heap.clearRecord locals
        return value : Effect Value).locatedAt request.span { session with heap } := by
    simp only [Structured.call, Bind.bind, Effect.bind, Effect.locatedAt, Effect.fromHeap, arity,
      isScript, read, opened]
  rw [ran]
  simp only [Session.beginCall, arity, isScript, called] at turn
  have follows := bodyFollows locals
    ((session.heap.function request.function).globals.getD session.globals) { session with heap }
    (sound.onHeap same)
  dsimp only at follows
  rw [← Scope.enter_entry] at follows
  exact follows_of_turn running turn (body_follows placed follows)

private theorem call_follows
    (inner : ∀ (place : Place) frames continuation, (place.machine patience).Evaluates
      (Structured.call patience) Sound (place.evaluating frames continuation) place.script place.chain)
    (sound : Sound session) (placed : after.chain = place.chain)
    (calls : place.Calls frames continuation request scope after session config) :
    (place.machine (patience + 1)).Follows config
      (place.Returned frames continuation scope after)
      ((Structured.call (patience + 1) request).locatedAt request.span session) := by
  have known : (session.heap.function request.function).Known := by
    unfold Heap.function
    cases found : session.heap.functions[request.function.address]? with
    | none => trivial
    | some function => exact sound.known function (Array.mem_of_getElem? found)
  cases arity : (session.heap.function request.function).checkArity request.arguments.length with
  | error cause =>
      have ran : (Structured.call (patience + 1) request).locatedAt request.span session =
          (.failed (.placed cause request.span), session) := by
        simp only [Structured.call, Bind.bind, Effect.bind, Effect.locatedAt, Effect.fromHeap, arity]
        rfl
      obtain ⟨running, turn⟩ := calls
      simp only [Session.beginCall, arity] at turn
      rw [ran]
      exact refused placed running turn
  | ok =>
      cases body : (session.heap.function request.function).body with
      | native action =>
          have ran : (Structured.call (patience + 1) request).locatedAt request.span session =
              (Effect.native action request.arguments request.receiver).locatedAt request.span
                session := by
            simp only [Structured.call, Bind.bind, Effect.bind, Effect.locatedAt, Effect.fromHeap,
              arity, body]
          unfold Function.Known at known
          rw [body] at known
          rw [ran]
          exact native_follows sound placed arity body known calls
      | script script entry =>
          unfold Function.Known at known
          rw [body] at known
          obtain ⟨block, start, stop, laid, within⟩ := known
          refine script_follows sound placed arity body (Script.block?_of_laid laid within) ?_ calls
          intro locals globals session sound
          exact executeBlock_follows inner block laid (.inl ⟨rfl, rfl, rfl⟩) rfl sound

/-- Apart from calls, the turns of an evaluation are turns of the session. -/
private theorem evaluates_of_called {call : CallRequest → Effect Value}
    (called : ∀ (request : CallRequest) (scope : Option Value) (after : Evaluation)
      (session config : Session), Sound session → after.chain = place.chain →
      place.Calls frames continuation request scope after session config →
      (place.machine patience).Follows config (place.Returned frames continuation scope after)
        ((call request).locatedAt request.span session)) :
    (place.machine patience).Evaluates call Sound (place.evaluating frames continuation)
      place.script place.chain where
  working {pending results names current after session heap} sound turn := by
    have kept := Evaluation.advance_keeps
      ⟨place.script, place.chain, pending, results, names, current⟩ session.heap
    rw [turn] at kept
    refine ⟨sound.onHeap kept.2.functions, reaches_of_turn sound.running ?_⟩
    simp only [evaluating, Session.advance, turn]
  failed {pending results names current after session heap failure} sound turn := by
    have kept := Evaluation.advance_keeps
      ⟨place.script, place.chain, pending, results, names, current⟩ session.heap
    rw [turn] at kept
    refine ⟨0, _, ⟨{ place.context frames with evaluation := after }, .evaluating continuation⟩, rfl,
      sound.running, rfl, congrArg ScopeChain.names kept.1.chain, ?_⟩
    simp only [evaluating, Session.advance, turn]
    rfl
  endless {pending results names current after session heap} sound turn := by
    exact .inr ⟨0, _, _, rfl, sound.running, by simp only [evaluating, Session.advance, turn]; rfl⟩
  called {pending results names current after session heap request scope} sound turn := by
    have kept := Evaluation.advance_keeps
      ⟨place.script, place.chain, pending, results, names, current⟩ session.heap
    rw [turn] at kept
    refine called request scope after { session with heap } _ (sound.onHeap kept.2.functions)
      kept.1.chain ⟨sound.running, ?_⟩
    simp only [evaluating, Session.advance, turn]
    exact beginCall_stack { session with heap } _ request scope _ continuation place.below

/-- Evaluations follow recursion for as many turns as calls may be nested. -/
theorem evaluates (patience : Nat) (place : Place) (frames : List Frame)
    (continuation : Continuation) :
    (place.machine patience).Evaluates (Structured.call patience) Sound
      (place.evaluating frames continuation) place.script place.chain := by
  induction patience generalizing place frames continuation with
  | zero => exact evaluates_of_called fun _ _ _ _ config _ _ _ => .inl ⟨config, rfl⟩
  | succ patience ih => exact evaluates_of_called fun _ _ _ _ _ => call_follows ih

end Place

namespace Session

theorem execute_of_runs (more : Nat) {turns : Nat} {first last : Session}
    (runs : Runs turns first last) :
    execute (more + turns) first = execute more last := by
  induction turns generalizing first with
  | zero =>
      obtain rfl := runs
      rfl
  | succ turns ih =>
      obtain ⟨running, middle, turn, rest⟩ := runs
      rw [← Nat.add_assoc]
      simp only [execute, running, ne_eq, not_true, decide_false, Bool.and_false, turn]
      exact ih rest

/-- A script that is busy for so many turns does not come to an end within them. -/
theorem execute_of_lasts {turns : Nat} {session : Session} (lasts : Lasts turns session) :
    (execute turns session).1 = .unfinished := by
  obtain ⟨last, runs⟩ | ⟨fewer, stop, last, runs, running, endless⟩ := lasts
  · have executed := execute_of_runs 0 runs
    rw [Nat.zero_add] at executed
    rw [executed]
    rfl
  · induction turns generalizing session fewer with
    | zero => rfl
    | succ turns ih =>
        cases fewer with
        | zero =>
            obtain rfl := runs
            simp only [execute, running, ne_eq, not_true, decide_false, Bool.and_false, endless]
            rfl
        | succ fewer =>
            obtain ⟨running, middle, turn, rest⟩ := runs
            simp only [execute, running, ne_eq, not_true, decide_false, Bool.and_false, turn]
            exact ih fewer rest

theorem execute_of_le {turns more : Nat} (le : turns ≤ more) {session : Session}
    (ended : (execute turns session).1 ≠ .unfinished) :
    execute more session = execute turns session := by
  induction turns generalizing more session with
  | zero => exact (ended rfl).elim
  | succ turns ih =>
      obtain ⟨more, rfl⟩ := Nat.exists_eq_succ_of_ne_zero (Nat.ne_zero_of_lt le)
      simp only [execute] at ended ⊢
      split
      · rfl
      · next active =>
          rw [if_neg active] at ended
          generalize session.advance = answer at ended ⊢
          obtain ⟨progress, after⟩ := answer
          cases progress with
          | working => exact ih (Nat.le_of_succ_le_succ le) ended
          | idle | failed | endless => rfl

theorem execute_unique {first second : Nat} {session after last : Session}
    {answer other : Answer Unit} (ran : execute first session = (answer, after))
    (again : execute second session = (other, last)) (ended : answer ≠ .unfinished)
    (endedAgain : other ≠ .unfinished) : (answer, after) = (other, last) := by
  have early := execute_of_le (Nat.le_max_left first second) (by rw [ran]; exact ended)
  have late := execute_of_le (Nat.le_max_right first second) (by rw [again]; exact endedAgain)
  rw [← ran, ← again, ← early, ← late]

/-- What is left of a session when its script has ended, apart from the contexts. -/
def ending (session : Session) : Session :=
  { session with stack := [], state := .stopped }

private theorem known_installAll {heap : Heap} (known : ∀ function ∈ heap.functions, function.Known)
    (target : RecordRef) (functions : List (String × List String × NativeAction))
    (plain : ∀ function ∈ functions, function.2.2.Plain) :
    ∀ function ∈ (heap.installAll target functions).functions, function.Known := by
  unfold Heap.installAll
  induction functions generalizing heap with
  | nil => exact known
  | cons function functions ih =>
      obtain ⟨first, later⟩ := List.forall_mem_cons.mp plain
      refine ih ?_ later
      intro other member
      rcases Array.mem_push.mp member with old | rfl
      · exact known other old
      · exact first

private theorem known_new : ∀ function ∈ (Session.new none).heap.functions, function.Known := by
  have empty : ∀ function ∈ (Heap.empty.newRecord .empty).2.functions, function.Known := by
    intro function member
    simp [Heap.empty, Heap.newRecord] at member
  have library := known_installAll empty (Heap.empty.newRecord .empty).1 libraryFunctions
    (by simp [libraryFunctions, NativeAction.Plain])
  show ∀ function ∈ Heap.empty.newGlobals.2.functions, function.Known
  generalize global : Heap.installAll _ _ _ = installed at library
  unfold Heap.newGlobals
  dsimp only
  rw [global]
  have opened : ∀ function ∈ (installed.newRecord .empty).2.functions, function.Known := library
  exact known_installAll opened (installed.newRecord .empty).1 libraryMethods
    (by simp [libraryMethods, NativeAction.Plain])

/-- Where the statements of a script run. -/
private def topLevel (script : Script) (globals : RecordRef) : Place :=
  ⟨⟨.base, script, ⟨globals, []⟩, false⟩, []⟩

private theorem run_new (script : Script) :
    ∃ started, (Session.new none).run script = .ok started ∧ started.Sound ∧
      started = (topLevel script started.globals).resting
        (((topLevel script started.globals).context [Frame.entry script.first]).goTo script.first)
        started := by
  refine ⟨_, rfl, ⟨rfl, rfl, known_new⟩, ?_⟩
  rw [← Scope.enter_entry]
  rfl

private theorem turn_of_finished {place : Place} (alone : place.below = []) {session config : Session}
    {head : Option StatementRef} {exit : Exit}
    (settled : place.SettledBlock [Frame.entry head] 0 exit session config) :
    config.state = .running ∧
      config.advance = (.idle, { config with now := session.now + 1 }) := by
  obtain ⟨sound, within, rfl⟩ := settled
  have ends (context : Context) (frames : context.frames = []) :
      (place.resting context session).advance =
        (.idle, { place.resting context session with now := session.now + 1 }) := by
    have overdue : ({ place.resting context session with
        now := session.now + 1 } : Session).isOverdue = none := by
      simp [Place.resting, Session.isOverdue, sound.unlimited]
    have current : context.current = none := by
      rw [Context.current, frames]
      rfl
    simp only [Place.resting, alone] at overdue ⊢
    simp only [Session.advance, overdue, Session.beginNext, current]
  refine ⟨sound.running, ?_⟩
  cases exit with
  | normal => exact ends _ rfl
  | returned value => exact ends _ rfl
  | leaving more => exact absurd within (Nat.not_lt_zero more)
  | continuing => exact absurd within (Nat.lt_irrefl 0)

private theorem execute_of_structured {script : Script} {body : List StatementTree} {stop : Nat}
    (laid : BlockLaid script body script.first 0 stop) {started : Session} (sound : started.Sound)
    (placed : started = (topLevel script started.globals).resting
      (((topLevel script started.globals).context [Frame.entry script.first]).goTo script.first)
      started) (bound : Nat) :
    match Structured.run bound script started.globals body started with
    | (.unfinished, _) => (execute bound started).1 = .unfinished
    | (answer, last) => ∃ turns after, execute turns started = (answer, after) ∧
        after.ending = last.ending := by
  have around : Frame.Around [Frame.entry script.first] 0 := .inl ⟨rfl, rfl, rfl⟩
  have laid : BlockLaid (topLevel script started.globals).script body script.first 0 stop := laid
  have follows := Place.executeBlock_follows (Place.evaluates bound) body laid around rfl sound
  rw [← placed] at follows
  change match (StatementTree.executeBlock (Structured.call bound) bound script
      ⟨started.globals, []⟩ 0 body >>= fun _ => Effect.tick) started with
    | (.unfinished, _) => (execute bound started).1 = .unfinished
    | (answer, last) => ∃ turns after, execute turns started = (answer, after) ∧
        after.ending = last.ending
  simp only [Bind.bind, Effect.bind]
  change (Place.machine _ bound).Follows started _ (StatementTree.executeBlock (Structured.call bound)
    bound script ⟨started.globals, []⟩ 0 body started) at follows
  generalize StatementTree.executeBlock (Structured.call bound) bound script
    ⟨started.globals, []⟩ 0 body started = answer at follows ⊢
  obtain ⟨answer, last⟩ := answer
  cases answer with
  | value exit =>
      obtain ⟨stop, ⟨turns, runs⟩, settled⟩ := follows
      obtain ⟨running, turn⟩ := turn_of_finished rfl settled
      obtain ⟨_, _, rfl⟩ := settled
      have ended := execute_of_runs 1 runs
      simp only [execute, running, turn, ne_eq, not_true, decide_false, Bool.and_false] at ended
      exact ⟨_, _, ended, rfl⟩
  | failed failure =>
      obtain ⟨turns, failing, top, runs, running, _, _, raised⟩ := follows
      have ended := execute_of_runs 1 runs
      simp only [execute, running, raised, ne_eq, not_true, decide_false, Bool.and_false] at ended
      exact ⟨_, _, ended, rfl⟩
  | unfinished => exact execute_of_lasts follows

/-- A source that the parser accepts runs in a new session exactly as the recursion
over the statements of its tree says: the one comes to an end, with an answer and a
session without its contexts, whenever the other does. -/
theorem execute_refines_structure {source : String} {script : Script}
    (accepted : Script.ofSource source = .ok script) :
    ∃ body started, script.tree? = some body ∧ (Session.new none).run script = .ok started ∧
      ∀ answer final, answer ≠ .unfinished →
        ((∃ turns after, execute turns started = (answer, after) ∧ after.ending = final) ↔
          ∃ bound after, Structured.run bound script started.globals body started =
            (answer, after) ∧ after.ending = final) := by
  obtain ⟨body, laid⟩ := ((Cursor.Reached.source source).finish_whole accepted).laid
  obtain ⟨started, begun, sound, placed⟩ := run_new script
  refine ⟨body, started, Script.block?_of_laid laid (Nat.le_refl _), begun, ?_⟩
  intro answer final ended
  have recursion := execute_of_structured laid sound placed
  constructor
  · rintro ⟨turns, after, executed, rfl⟩
    specialize recursion turns
    generalize ran : Structured.run turns script started.globals body started = result at recursion
    obtain ⟨result, last⟩ := result
    cases result with
    | unfinished =>
        rw [executed] at recursion
        exact absurd recursion ended
    | value | failed =>
        obtain ⟨more, again, ranAgain, same⟩ := recursion
        obtain ⟨rfl, rfl⟩ := Prod.mk.inj (execute_unique executed ranAgain ended nofun)
        exact ⟨turns, last, ran, same.symm⟩
  · rintro ⟨bound, after, ran, rfl⟩
    specialize recursion bound
    rw [ran] at recursion
    cases answer with
    | value | failed => exact recursion
    | unfinished => exact absurd rfl ended

/-- A loop that is left in its second pass has written one line. -/
theorem execute_refines_structure_in_loop :
    ∃ script body started bound after,
      Script.ofSource "for x in \"ab\"\nif x == \"b\"\nbreak\nend\nprint x\nend\n" = .ok script ∧
        script.tree? = some body ∧ (Session.new none).run script = .ok started ∧
        Structured.run bound script started.globals body started = (.value (), after) ∧
        after.output = "a\n" := by
  have passed : ((Script.ofSource
      "for x in \"ab\"\nif x == \"b\"\nbreak\nend\nprint x\nend\n").toOption.any fun script =>
        ((Session.new none).run script).toOption.any fun started =>
          returns (execute 60 started) fun _ after => after.output == "a\n") = true := by cbv
  obtain ⟨script, accepted, passed⟩ := ok_of_any passed
  obtain ⟨body, started, read, begun, agrees⟩ := execute_refines_structure accepted
  simp only [begun, Except.toOption, Option.any_some] at passed
  obtain ⟨_, after, executed, printed⟩ := eq_of_returns passed
  obtain ⟨bound, last, recursion, same⟩ :=
    (agrees (.value ()) after.ending (by simp)).mp ⟨60, after, executed, rfl⟩
  have output : last.ending.output = after.ending.output := congrArg Session.output same
  exact ⟨script, body, started, bound, last, accepted, read, begun, recursion,
    output.trans (eq_of_beq printed)⟩

end Session

end ScriptEngine
