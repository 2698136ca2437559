import ScriptEngine.Proofs.Control.Nesting
import ScriptEngine.Proofs.Machine.Turns

/-!
# Turns follow the recursion over statements

A session whose innermost context stands on a statement does what executing the
tree of this statement says, and comes to where the context goes on behind it. The
frames below the one that runs a body only matter once the body has ended.
-/

set_option autoImplicit false

namespace ScriptEngine.Place

open Session (Runs Sound)

/-- The next turn carries out what a statement came to. -/
def Comes (place : Place) (outcome : StatementOutcome) (session config : Session) : Prop :=
  config.state = .running ∧ config.advance = session.settleStatement outcome place.below

/-- The innermost context has gone on behind a statement. -/
def Settled (place : Place) (frames : List Frame) (loops : Nat) (exit : Exit)
    (session config : Session) : Prop :=
  Sound session ∧ exit.Within loops ∧
    config = place.resting (exit.settle (place.context frames)) session

/-- The innermost context has come to the end of the sequence of its first frame. -/
def SettledBlock (place : Place) (frames : List Frame) (loops : Nat) (exit : Exit)
    (session config : Session) : Prop :=
  Sound session ∧ exit.Within loops ∧
    config = place.resting (exit.settleBlock (place.context frames)) session

variable {place : Place} {patience : Nat} {call : CallRequest → Effect Value}
  {frames rest : List Frame} {frame : Frame} {loops : Nat} {session config : Session}
  {this : StatementRef} {α : Type} {arrives : α → Session → Session → Prop}

/-- What stands on the stack does not matter for carrying out a statement. -/
private theorem settleStatement_stack (session : Session) (stack : List Activation)
    (outcome : StatementOutcome) (below : List Activation) :
    ({ session with stack } : Session).settleStatement outcome below =
      session.settleStatement outcome below := by
  cases outcome <;> rfl

theorem comes_of_begin (frame : Frame) (rest : List Frame) (sound : Sound session) {statement : Statement}
    (current : frame.current = some this)
    (found : place.script.statement? this = some statement) :
    place.Comes ((place.context (frame :: rest)).beginStatement session.heap this statement)
      { session with now := session.now + 1 }
      (place.resting (place.context (frame :: rest)) session) := by
  refine ⟨sound.running, ?_⟩
  have overdue : ({ place.resting (place.context (frame :: rest)) session with
      now := session.now + 1 } : Session).isOverdue = none := by
    simp [resting, Session.isOverdue, sound.unlimited]
  have current : (place.context (frame :: rest)).current = some this := current
  have found : (place.context (frame :: rest)).script.statement? this = some statement := found
  simp only [resting] at overdue ⊢
  simp only [Session.advance, overdue, Session.beginNext, current, found]
  exact settleStatement_stack { session with now := session.now + 1 } _
    ((place.context (frame :: rest)).beginStatement session.heap this statement) place.below

theorem turn_of_done {context : Context} {heap : Heap}
    (comes : place.Comes (.done context heap) session config) :
    config.advance = (.working, place.resting context { session with heap }) :=
  comes.2

theorem settled_of_done (exit : Exit) (sound : Sound session) (within : exit.Within loops)
    (comes : place.Comes (.done (exit.settle (place.context frames)) session.heap) session config) :
    (place.machine patience).Follows config (place.Settled frames loops)
      ((pure exit : Effect Exit) session) := by
  refine Machine.Follows.after (reaches_of_turn comes.1 (turn_of_done comes)) ?_
  exact .pure ⟨sound, within, rfl⟩

theorem fails_of_failed {failure : RuntimeError} {context : Context}
    (scope : (place.context frames).KeepsScope context)
    (comes : place.Comes (.failed failure context session.heap) session config) :
    (place.machine patience).Fails failure session config := by
  refine ⟨0, config, ⟨context, .resting⟩, rfl, comes.1, scope.ownsNames, ?_, comes.2⟩
  exact congrArg ScopeChain.names scope.place.chain

theorem onHeap_follows {β : Type} {span : Span}
    {action : Heap → Except RuntimeCause (β × Heap)} {following : β → Effect α}
    (failed : ∀ cause, action session.heap = .error cause →
      (place.machine patience).Fails (.placed cause span) session config)
    (worked : ∀ value heap, action session.heap = .ok (value, heap) →
      (place.machine patience).Follows config arrives (following value { session with heap })) :
    (place.machine patience).Follows config arrives
      ((Effect.onHeap span action >>= following) session) := by
  simp only [Bind.bind, Effect.bind, Effect.onHeap, Effect.compute]
  cases answer : action session.heap with
  | error cause => exact failed cause answer
  | ok value => exact worked value.1 value.2 answer

/-- The value that is stored is made in the same turn in which it is stored. -/
private theorem combine_follows {operator : AssignOperator} {span : Span}
    {held : Heap → Except RuntimeCause Value} {given : Value}
    {outcome : Value → Heap → StatementOutcome} {following : Value → Effect α}
    (comes : place.Comes
      (match operator.combine session.heap (fun _ => held session.heap) given with
        | .ok (stored, heap) => outcome stored heap
        | .error cause => .failed (.placed cause span) (place.context frames) session.heap)
      session config)
    (worked : ∀ stored heap, heap.functions = session.heap.functions →
      place.Comes (outcome stored heap) session config →
      (place.machine patience).Follows config arrives (following stored { session with heap })) :
    (place.machine patience).Follows config arrives
      ((Effect.combine operator span held given >>= following) session) := by
  refine onHeap_follows ?_ ?_
  · intro cause failed
    rw [failed] at comes
    exact fails_of_failed (.refl _) comes
  · intro stored heap combined
    rw [combined] at comes
    exact worked stored heap (AssignOperator.keepsObjects_combine combined).functions comes

/-- A `break` leaves as many loops as there are, or fails. -/
private theorem break_follows {count : Nat} {span : Span} (around : Frame.Around frames loops)
    (sound : Sound session)
    (comes : place.Comes ((place.context frames).beginStatement session.heap this
      (.breakLoops count span)) session config) :
    (place.machine patience).Follows config (place.Settled frames loops)
      (Exit.ofBreak loops count span session) := by
  have answer := Context.breakOut_answer (place.context frames) around count
  have kept := (place.context frames).keepsScope_breakOut count
  cases broken : (place.context frames).breakOut count with
  | mk result context =>
      rw [broken] at answer kept
      simp only [Context.beginStatement, broken] at comes
      dsimp only at answer kept
      unfold Exit.ofBreak
      by_cases invalid : count = 0
      · rw [if_pos invalid] at answer ⊢
        subst answer
        exact fails_of_failed kept comes
      · rw [if_neg invalid] at answer ⊢
        by_cases outside : loops = 0
        · rw [if_pos outside] at answer ⊢
          subst answer
          exact fails_of_failed kept comes
        · rw [if_neg outside] at answer ⊢
          by_cases few : loops < count
          · rw [if_pos few] at answer ⊢
            subst answer
            exact fails_of_failed kept comes
          · rw [if_neg few] at answer ⊢
            subst answer
            have settles : context = (Exit.leaving (count - 1)).settle (place.context frames) := by
              rw [Exit.settle, Nat.sub_add_cancel (Nat.pos_of_ne_zero invalid), broken]
            have within : (Exit.leaving (count - 1)).Within loops := by
              show count - 1 < loops
              omega
            exact settled_of_done _ sound within (settles ▸ comes)

private theorem continue_follows {span : Span} (around : Frame.Around frames loops)
    (sound : Sound session)
    (comes : place.Comes ((place.context frames).beginStatement session.heap this
      (.continueLoop span)) session config) :
    (place.machine patience).Follows config (place.Settled frames loops)
      (Exit.ofContinue loops span session) := by
  have answer := Context.nextLoopPass_answer (place.context frames) around
  have kept := (place.context frames).keepsScope_nextLoopPass
  cases continued : (place.context frames).nextLoopPass with
  | mk result context =>
      rw [continued] at answer kept
      simp only [Context.beginStatement, continued] at comes
      dsimp only at answer kept
      unfold Exit.ofContinue
      by_cases outside : loops = 0
      · rw [if_pos outside] at answer ⊢
        subst answer
        exact fails_of_failed kept comes
      · rw [if_neg outside] at answer ⊢
        subst answer
        have settles : context = Exit.continuing.settle (place.context frames) := by
          rw [Exit.settle, continued]
        exact settled_of_done _ sound (Nat.pos_of_ne_zero outside) (settles ▸ comes)

private theorem pass_settled {exit : Exit} {head : Option StatementRef}
    (settled : place.SettledBlock (Frame.ofLoop this head :: frame :: rest) (loops + 1) exit session
      config) (around : Frame.Around (frame :: rest) loops) (current : frame.current = some this) :
    match exit.afterPass with
    | some outer => place.Settled ({ frame with iteration := none } :: rest) loops outer session config
    | none => Sound session ∧ config = place.resting (place.context (frame :: rest)) session := by
  obtain ⟨sound, within, rfl⟩ := settled
  rw [Exit.settle_loop place.toScope around within current rfl rfl rfl]
  cases exit with
  | normal | continuing => exact ⟨sound, rfl⟩
  | returned value => exact ⟨sound, trivial, rfl⟩
  | leaving more =>
      cases more with
      | zero => exact ⟨sound, trivial, rfl⟩
      | succ more => exact ⟨sound, Nat.lt_of_succ_lt_succ within, rfl⟩

/-- A context that has come to its end is completed for the one below. -/
theorem turn_of_ended {head : Option StatementRef} {exit : Exit} {caller : Activation}
    {below : List Activation} (waits : place.below = caller :: below)
    (settled : place.SettledBlock [Frame.entry head] 0 exit session config) :
    config.state = .running ∧ ∃ context : Context, context.ownsNames = place.ownsNames ∧
      context.names = place.chain.names ∧ context.returnValue.getD .none = exit.value ∧
      config.advance =
        { config with now := session.now + 1 }.complete context caller below := by
  obtain ⟨sound, within, rfl⟩ := settled
  have ends (context : Context) (frames : context.frames = []) :
      (place.resting context session).advance = { place.resting context session with
        now := session.now + 1 }.complete context caller below := by
    have overdue : ({ place.resting context session with
        now := session.now + 1 } : Session).isOverdue = none := by
      simp [resting, Session.isOverdue, sound.unlimited]
    have current : context.current = none := by
      rw [Context.current, frames]
      rfl
    simp only [resting, waits] at overdue ⊢
    simp only [Session.advance, overdue, Session.beginNext, current]
  refine ⟨sound.running, ?_⟩
  cases exit with
  | normal => exact ⟨place.context [], rfl, rfl, rfl, ends _ rfl⟩
  | returned value => exact ⟨place.ended value, rfl, rfl, rfl, ends _ rfl⟩
  | leaving more => exact absurd within (Nat.not_lt_zero more)
  | continuing => exact absurd within (Nat.lt_irrefl 0)

/-- An error in a context of its own clears the names of this context before it
gets to the context below. -/
theorem raise_below {inner : Place} {failure : RuntimeError} {after : Session}
    (owns : inner.ownsNames = true) {top caller : Activation} {below : List Activation}
    (ownsNames : top.context.ownsNames = inner.ownsNames)
    (names : top.context.names = inner.chain.names) :
    after.raise failure top (caller :: below) =
      match caller.activity with
      | .calling _ _ span =>
          { after with heap := after.heap.clearRecord inner.chain.names }.raise
            (failure.withDefaultSpan span) caller below
      | .declaring .. =>
          { after with heap := after.heap.clearRecord inner.chain.names }.raise failure caller below
      | _ => after.raise failure top (caller :: below) := by
  have cleared : top.context.release after.heap = after.heap.clearRecord inner.chain.names := by
    rw [Context.release, ownsNames, owns, names, if_pos rfl]
  obtain ⟨context, activity⟩ := caller
  cases activity <;> simp only [Session.raise, Session.unwind, cleared]

private theorem delete_follows {name : String} {span : Span} (sound : Sound session)
    (comes : place.Comes ((place.context frames).beginStatement session.heap this
      (.delete name span)) session config) :
    (place.machine patience).Follows config (place.Settled frames loops)
      ((do
        Effect.onHeap span fun heap =>
          if (heap.record place.chain.names).contains name then
            .ok ((), heap.eraseMember place.chain.names name)
          else .error (.invalidAccess name)
        return .normal : Effect Exit) session) := by
  have begins : (place.context frames).beginStatement session.heap this (.delete name span) =
      if (session.heap.record place.chain.names).contains name then
        .done (place.context frames).proceed (session.heap.eraseMember place.chain.names name)
      else
        .failed (.placed (.invalidAccess name) span) (place.context frames) session.heap := rfl
  rw [begins] at comes
  refine onHeap_follows ?_ ?_
  · intro cause failed
    by_cases present : (session.heap.record place.chain.names).contains name = true
    · rw [if_pos present] at failed
      cases failed
    · rw [if_neg present] at failed comes
      cases failed
      exact fails_of_failed (.refl _) comes
  · intro _ heap erased
    by_cases present : (session.heap.record place.chain.names).contains name = true
    · rw [if_pos present] at erased comes
      cases erased
      exact settled_of_done .normal (sound.onHeap rfl) trivial comes
    · rw [if_neg present] at erased
      cases erased

private theorem define_follows {name : String} {parameters : List String}
    {entry : Option StatementRef} (sound : Sound session)
    (known : ∃ body start stop,
      BlockLaid place.script body entry start stop ∧ stop ≤ place.script.statements.size)
    (comes : place.Comes ((place.context frames).beginStatement session.heap this
      (.define name parameters entry)) session config) :
    (place.machine patience).Follows config (place.Settled frames loops)
      ((do
        let function ← Effect.allocate fun heap => heap.newFunction
          ⟨name, parameters, .script place.script entry, some place.chain.outermost⟩
        Effect.bindName place.chain name (.function function)
        return .normal : Effect Exit) session) := by
  have grown : Sound { session with heap := (session.heap.newFunction
      ⟨name, parameters, .script place.script entry, some place.chain.outermost⟩).2 } := by
    refine { sound with known := ?_ }
    intro function member
    rcases Array.mem_push.mp member with old | rfl
    · exact sound.known function old
    · exact known
  exact settled_of_done .normal (grown.onHeap rfl) trivial comes

private theorem branch_settled {head : Option StatementRef} {exit : Exit}
    (settled : place.SettledBlock (⟨head, place.script.next this, none, none, none⟩ :: frame :: rest)
      loops exit session config) (current : frame.current = some this) :
    place.Settled (frame :: rest) loops exit session config := by
  obtain ⟨sound, within, rfl⟩ := settled
  have abruptly (abrupt : exit ≠ .normal) :
      exit.settle (place.context (⟨head, place.script.next this, none, none, none⟩ :: frame :: rest)) =
        exit.settle (place.context (frame :: rest)) :=
    Exit.settle_plain place.toScope abrupt rfl rfl _
  refine ⟨sound, within, congrArg (fun context => place.resting context session) ?_⟩
  cases exit with
  | normal =>
      have stands : (place.context (frame :: rest)).current = some this := current
      show (place.context (_ :: frame :: rest)).goTo none = (place.context (frame :: rest)).proceed
      rw [Scope.goTo_none, Context.proceed_eq, stands]
      rfl
  | leaving more => exact abruptly nofun
  | continuing => exact abruptly nofun
  | returned value => rfl

private theorem branch_follows {head : Option StatementRef} {body : Effect Exit}
    (current : frame.current = some this)
    (comes : place.Comes (.done ((place.context (frame :: rest)).enter head
      (place.script.next this) none none) session.heap) session config)
    (follows : (place.machine patience).Follows
      (place.resting ((place.context (⟨head, place.script.next this, none, none, none⟩ :: frame ::
        rest)).goTo head) session)
      (place.SettledBlock (⟨head, place.script.next this, none, none, none⟩ :: frame :: rest) loops)
      (body session)) :
    (place.machine patience).Follows config (place.Settled (frame :: rest) loops) (body session) := by
  rw [Scope.enter_eq] at comes
  refine Machine.Follows.after (reaches_of_turn comes.1 (turn_of_done comes)) ?_
  exact follows.mono fun exit after stop settled => branch_settled settled current

/-- Where the block of a record runs. -/
def inRecord (place : Place) (frames : List Frame) (name : String) (span : Span)
    (members : RecordRef) : Place :=
  ⟨⟨.block, place.script, ⟨members, place.chain.toList⟩, true⟩,
    ⟨place.context frames, .declaring name span⟩ :: place.below⟩

private theorem record_follows {name : String} {head : Option StatementRef} {span : Span}
    (block : RecordRef → Effect Exit) (sound : Sound session)
    (comes : place.Comes ((place.context frames).beginStatement session.heap this
      (.record name head span)) session config)
    (blockFollows : ∀ members session, Sound session →
      let inner := place.inRecord frames name span members
      (inner.machine patience).Follows
        (inner.resting ((inner.context [Frame.entry head]).goTo head) session)
        (inner.SettledBlock [Frame.entry head] 0) (block members session)) :
    (place.machine patience).Follows config (place.Settled frames loops)
      ((do
        let members ← Effect.allocate fun heap => heap.newRecord .empty
        Effect.clearingOnFailure members do
          let _ ← block members
          Effect.tick
        Effect.bindName place.chain name (.record members)
        return .normal : Effect Exit) session) := by
  obtain ⟨members, heap, opened, same⟩ : ∃ members heap,
      session.heap.newRecord .empty = (members, heap) ∧ heap.functions = session.heap.functions :=
    ⟨_, _, rfl, rfl⟩
  have inner := blockFollows members { session with heap } (sound.onHeap same)
  have turn : config.advance = (.working,
      (place.inRecord frames name span members).resting
        (((place.inRecord frames name span members).context [Frame.entry head]).goTo head)
          { session with heap }) := by
    rw [← Scope.enter_entry]
    have turn := comes.2
    simp only [Context.beginStatement, Session.settleStatement, opened] at turn
    exact turn
  refine Machine.Follows.after (reaches_of_turn comes.1 turn) ?_
  have ran : (do
        let members ← Effect.allocate fun heap => heap.newRecord .empty
        Effect.clearingOnFailure members do
          let _ ← block members
          Effect.tick
        Effect.bindName place.chain name (.record members)
        return .normal : Effect Exit) session =
      match block members { session with heap } with
      | (.value _, last) => (.value .normal, { last with
          now := last.now + 1
          heap := last.heap.setMember place.chain.names name (.record members) })
      | (.failed failure, last) =>
          (.failed failure, { last with heap := last.heap.clearRecord members })
      | (.unfinished, last) => (.unfinished, last) := by
    simp only [Bind.bind, Effect.bind, Effect.allocate, opened, Effect.clearingOnFailure]
    generalize block members { session with heap } = answer
    obtain ⟨answer, last⟩ := answer
    cases answer <;> rfl
  rw [ran]
  dsimp only at inner
  generalize block members { session with heap } = answer at inner ⊢
  obtain ⟨answer, last⟩ := answer
  cases answer with
  | value exit =>
      obtain ⟨stop, reached, settled⟩ := inner
      obtain ⟨running, context, owns, names, _, completes⟩ := turn_of_ended rfl settled
      obtain ⟨sound, _, rfl⟩ := settled
      simp only [Session.complete, Context.takeNames, owns, names, inRecord, if_true] at completes
      have completed := (place.machine patience).trans reached (reaches_of_turn running completes)
      refine Machine.Follows.after completed ?_
      exact .pure ⟨sound.tick.onHeap rfl, trivial, rfl⟩
  | failed failure =>
      obtain ⟨turns, stop, top, runs, running, owns, names, raised⟩ := inner
      exact ⟨turns, stop, _, runs, running, rfl, rfl, raised.trans (raise_below rfl owns names)⟩
  | unfinished => exact inner

section

variable (evaluates : ∀ (place : Place) frames continuation,
  (place.machine patience).Evaluates call Sound (place.evaluating frames continuation)
      place.script place.chain)

include evaluates

/-- An evaluation that has begun ends with handing its value to the statement. -/
theorem value_follows {tree : ExpressionTree} {node : ExpressionRef} {continuation : Continuation}
    (sound : Sound session) (spelled : tree.At place.script node) :
    (place.machine patience).Follows
      (place.evaluating frames continuation
        ((Evaluation.new place.script place.chain).begin node) session)
      (fun value after stop => Sound after ∧
        place.Comes ((place.context frames).deliver after.heap continuation value) after stop)
      (tree.value call place.chain session) := by
  have follows := (evaluates place frames continuation).value_follows
    spelled session sound
  refine follows.mono ?_
  rintro value after stop ⟨sound, last, rfl, finished⟩
  refine ⟨sound, sound.running, ?_⟩
  simp only [evaluating, Session.advance, finished]
  exact settleStatement_stack after _ ((place.context frames).deliver after.heap continuation value)
    place.below

theorem evaluate_follows {tree : ExpressionTree} {node : ExpressionRef}
    {continuation : Continuation} (sound : Sound session) (spelled : tree.At place.script node)
    (comes : place.Comes (.evaluate node continuation (place.context frames) session.heap) session
      config) :
    (place.machine patience).Follows config
      (fun value after stop => Sound after ∧
        place.Comes ((place.context frames).deliver after.heap continuation value) after stop)
      (tree.value call place.chain session) :=
  (value_follows evaluates sound spelled).after (reaches_of_turn comes.1 comes.2)

private theorem discard_follows {tree : ExpressionTree} {node : ExpressionRef}
    (sound : Sound session) (spelled : tree.At place.script node)
    (comes : place.Comes ((place.context frames).beginStatement session.heap this
      (.expression node)) session config) :
    (place.machine patience).Follows config (place.Settled frames loops)
      ((do
        let _ ← tree.value call place.chain
        return .normal : Effect Exit) session) := by
  refine Machine.Follows.bind (evaluate_follows evaluates sound spelled comes) ?_
  rintro value after stop ⟨sound, comes⟩
  exact settled_of_done .normal sound trivial comes

private theorem return_follows {tree : ExpressionTree} {node : ExpressionRef}
    (sound : Sound session) (spelled : tree.At place.script node)
    (comes : place.Comes ((place.context frames).beginStatement session.heap this
      (.returnValue (some node))) session config) :
    (place.machine patience).Follows config (place.Settled frames loops)
      ((do
        let given ← tree.value call place.chain
        return .returned given : Effect Exit) session) := by
  refine Machine.Follows.bind (evaluate_follows evaluates sound spelled comes) ?_
  rintro value after stop ⟨sound, comes⟩
  exact settled_of_done (.returned value) sound trivial comes

private theorem texts_follows {trees : List ExpressionTree} {tree : ExpressionTree}
    {nodes : List ExpressionRef} {node : ExpressionRef} {bound : Nat} (line : String)
    (sound : Sound session) (spelled : tree.At place.script node)
    (allSpelled : ExpressionTree.AllAt place.script trees nodes bound)
    (comes : place.Comes (.evaluate node (.print line nodes) (place.context frames) session.heap)
      session config) :
    (place.machine patience).Follows config
      (fun texts after stop => Sound after ∧ texts ≠ [] ∧
        place.Comes (.line (line ++ " ".intercalate texts) (place.context frames).proceed after.heap)
          after stop)
      (ExpressionTree.texts call place.chain (tree :: trees) session) := by
  induction trees generalizing tree node nodes line session config with
  | nil =>
      cases nodes with
      | cons => exact allSpelled.elim
      | nil =>
          refine Machine.Follows.bind (evaluate_follows evaluates sound spelled comes) ?_
          rintro value after stop ⟨sound, comes⟩
          exact .pure ⟨sound, nofun, comes⟩
  | cons next trees ih =>
      cases nodes with
      | nil => exact allSpelled.elim
      | cons node nodes =>
          obtain ⟨⟨_, nextSpelled⟩, restSpelled⟩ := allSpelled
          refine Machine.Follows.bind (evaluate_follows evaluates sound spelled comes) ?_
          rintro value after stop ⟨sound, comes⟩
          change (place.machine patience).Follows stop _
            ((do
              let rest ← ExpressionTree.texts call place.chain (next :: trees)
              return after.heap.text value :: rest : Effect (List String)) after)
          refine Machine.Follows.bind
            (ih (line ++ after.heap.text value ++ " ") sound nextSpelled restSpelled comes) ?_
          rintro texts last stop ⟨sound, some, comes⟩
          refine .pure ⟨sound, nofun, ?_⟩
          rw [String.intercalate_cons_of_ne_nil some]
          simpa only [String.append_assoc] using comes

private theorem print_follows {values : List ExpressionTree} {nodes : List ExpressionRef}
    {bound : Nat} (sound : Sound session)
    (spelled : ExpressionTree.AllAt place.script values nodes bound)
    (comes : place.Comes ((place.context frames).beginStatement session.heap this (.print nodes))
      session config) :
    (place.machine patience).Follows config (place.Settled frames loops)
      ((do
        let texts ← ExpressionTree.texts call place.chain values
        Effect.writeLine (" ".intercalate texts)
        return .normal : Effect Exit) session) := by
  have written {text : String} {session config : Session} (sound : Sound session)
      (comes : place.Comes (.line text (place.context frames).proceed session.heap) session config) :
      (place.machine patience).Follows config (place.Settled frames loops)
        ((do Effect.writeLine text; return .normal : Effect Exit) session) := by
    have turn : config.advance =
      (.working, place.resting (place.context frames).proceed (session.writeLine text)) := comes.2
    refine Machine.Follows.after (reaches_of_turn comes.1 turn) ?_
    exact .pure ⟨{ sound with }, trivial, rfl⟩
  cases values with
  | nil =>
      cases nodes with
      | cons => exact spelled.elim
      | nil => exact written sound comes
  | cons tree trees =>
      cases nodes with
      | nil => exact spelled.elim
      | cons node nodes =>
          obtain ⟨⟨_, treeAt⟩, restAt⟩ := spelled
          refine Machine.Follows.bind (texts_follows evaluates "" sound treeAt restAt comes) ?_
          rintro texts after stop ⟨sound, _, comes⟩
          rw [String.empty_append] at comes
          exact written sound comes

private theorem assignName_follows {tree : ExpressionTree} {node : ExpressionRef} {name : String}
    {operator : AssignOperator} {span : Span} (sound : Sound session)
    (spelled : tree.At place.script node)
    (comes : place.Comes ((place.context frames).beginStatement session.heap this
      (.assign (.name name) operator node span)) session config) :
    (place.machine patience).Follows config (place.Settled frames loops)
      ((do
        let given ← tree.value call place.chain
        let stored ← Effect.combine operator span (Heap.valueOfName place.chain name) given
        Effect.bindName place.chain name stored
        return .normal : Effect Exit) session) := by
  refine Machine.Follows.bind (evaluate_follows evaluates sound spelled comes) ?_
  rintro value after stop ⟨sound, comes⟩
  refine combine_follows comes fun stored heap same comes => ?_
  exact settled_of_done .normal (sound.onHeap same) trivial comes

private theorem assignMember_follows {holder tree : ExpressionTree} {target node : ExpressionRef}
    {name : String} {operator : AssignOperator} {span : Span} (sound : Sound session)
    (holderSpelled : holder.At place.script target) (spelled : tree.At place.script node)
    (comes : place.Comes ((place.context frames).beginStatement session.heap this
      (.assign (.member target name) operator node span)) session config) :
    (place.machine patience).Follows config (place.Settled frames loops)
      ((do
        let object ← holder.value call place.chain
        match object.recordRef? with
        | none => Effect.fail span (.nonRecord object)
        | some record =>
            let given ← tree.value call place.chain
            let stored ← Effect.combine operator span (Heap.valueOfMember record name) given
            Effect.changeHeap fun heap => heap.setMember record name stored
            return .normal : Effect Exit) session) := by
  refine Machine.Follows.bind (evaluate_follows evaluates sound holderSpelled comes) ?_
  rintro object middle stop ⟨sound, comes⟩
  simp only [Context.deliver] at comes
  cases isRecord : object.recordRef? with
  | none =>
      rw [isRecord] at comes
      exact fails_of_failed (.refl _) comes
  | some record =>
      rw [isRecord] at comes
      refine Machine.Follows.bind (evaluate_follows evaluates sound spelled comes) ?_
      rintro value after stop ⟨sound, comes⟩
      refine combine_follows comes fun stored heap same comes => ?_
      exact settled_of_done .normal (sound.onHeap same) trivial comes

private theorem assignElement_follows {holder index tree : ExpressionTree}
    {target position node : ExpressionRef} {operator : AssignOperator} {span : Span}
    (sound : Sound session) (holderSpelled : holder.At place.script target)
    (indexSpelled : index.At place.script position) (spelled : tree.At place.script node)
    (comes : place.Comes ((place.context frames).beginStatement session.heap this
      (.assign (.element target position) operator node span)) session config) :
    (place.machine patience).Follows config (place.Settled frames loops)
      ((do
        let object ← holder.value call place.chain
        let item ← index.value call place.chain
        let given ← tree.value call place.chain
        let stored ← Effect.combine operator span (fun heap => heap.element object item) given
        Effect.onHeap span fun heap =>
          (heap.setElement object item stored).map fun heap => ((), heap)
        return .normal : Effect Exit) session) := by
  refine Machine.Follows.bind (evaluate_follows evaluates sound holderSpelled comes) ?_
  rintro object middle stop ⟨sound, comes⟩
  refine Machine.Follows.bind (evaluate_follows evaluates sound indexSpelled comes) ?_
  rintro item middle stop ⟨sound, comes⟩
  refine Machine.Follows.bind (evaluate_follows evaluates sound spelled comes) ?_
  rintro value after stop ⟨sound, comes⟩
  refine combine_follows comes fun stored heap same comes => ?_
  refine onHeap_follows ?_ ?_
  · intro cause failed
    cases written : heap.setElement object item stored with
    | ok grown =>
        rw [written] at failed
        cases failed
    | error cause =>
        rw [written] at failed comes
        cases failed
        exact fails_of_failed (.refl _) comes
  · intro _ grown worked
    cases written : heap.setElement object item stored with
    | error cause =>
        rw [written] at worked
        cases worked
    | ok grown =>
        rw [written] at worked comes
        cases worked
        have sound := (sound.onHeap same).onHeap (Heap.functions_setElement written)
        exact settled_of_done .normal sound trivial comes

private theorem while_follows {condition : ExpressionTree} {node : ExpressionRef}
    {head : Option StatementRef} {body : Effect Exit} (around : Frame.Around (frame :: rest) loops)
    (current : frame.current = some this) (idle : frame.iteration = none) (sound : Sound session)
    (found : place.script.statement? this = some (.whileLoop node head))
    (spelled : condition.At place.script node)
    (bodyFollows : ∀ session, Sound session → (place.machine patience).Follows
      (place.resting ((place.context (Frame.ofLoop this head :: frame :: rest)).goTo head) session)
      (place.SettledBlock (Frame.ofLoop this head :: frame :: rest) (loops + 1)) (body session)) :
    (place.machine patience).Follows (place.resting (place.context (frame :: rest)) session)
      (place.Settled (frame :: rest) loops)
      (Effect.repeatPass (fun _ => do
          Effect.tick
          let holds ← condition.value call place.chain
          if ← Effect.fromHeap fun heap => heap.isTruthy holds then
            match (← body).afterPass with
            | some exit => return .inl exit
            | none => return .inr ()
          else
            return .inl .normal) patience () session) := by
  have same : { frame with iteration := none } = frame := by rw [← idle]
  refine repeatPass_follows (fun _ session config =>
    Sound session ∧ config = place.resting (place.context (frame :: rest)) session) ?_
    (Nat.le_refl _) ⟨sound, rfl⟩
  rintro ⟨⟩ session _ ⟨sound, rfl⟩
  have comes := comes_of_begin frame rest sound current found
  refine ⟨comes.1, place.evaluating (frame :: rest) (.whileLoop this head)
    ((Evaluation.new place.script place.chain).begin node) { session with now := session.now + 1 },
    comes.2, ?_⟩
  rw [Effect.tick_bind]
  refine Machine.Follows.bind (value_follows evaluates sound.tick spelled) ?_
  rintro holds after stop ⟨sound, comes⟩
  simp only [Context.deliver] at comes
  change (place.machine patience).Follows stop _ ((if after.heap.isTruthy holds = true then
    (do
      match (← body).afterPass with
      | some exit => return .inl exit
      | none => return .inr () : Effect (Exit ⊕ Unit))
    else return .inl .normal) after)
  by_cases truthy : after.heap.isTruthy holds = true
  · rw [if_pos truthy] at comes ⊢
    refine Machine.Follows.after (reaches_of_turn comes.1 (turn_of_done comes)) ?_
    rw [Scope.enterLoopBody_eq]
    refine Machine.Follows.bind (bodyFollows after sound) ?_
    intro exit last stop settled
    have passed := pass_settled settled around current
    generalize exit.afterPass = outer at passed
    cases outer with
    | none => exact .pure passed
    | some outer => exact .pure (same ▸ passed)
  · rw [if_neg truthy] at comes ⊢
    refine Machine.Follows.after (reaches_of_turn comes.1 (turn_of_done comes)) ?_
    exact .pure ⟨sound, trivial, rfl⟩

omit evaluates in
/-- The passes of a loop over a value, from where the next item is asked for. -/
private theorem forPasses_follows {item : String} {iterable : ExpressionRef}
    {head : Option StatementRef} {span : Span} {body : Effect Exit}
    (around : Frame.Around (frame :: rest) loops) (current : frame.current = some this)
    (idle : frame.iteration = none)
    (found : place.script.statement? this = some (.forLoop item iterable head span))
    (bodyFollows : ∀ iteration session, Sound session → (place.machine patience).Follows
      (place.resting ((place.context (Frame.ofLoop this head :: { frame with iteration } :: rest)).goTo
        head) session)
      (place.SettledBlock (Frame.ofLoop this head :: { frame with iteration } :: rest) (loops + 1))
      (body session)) {iteration : Iteration} (sound : Sound session)
    (comes : place.Comes ((place.context ({ frame with iteration := some iteration } ::
      rest)).nextPass session.heap this item head) session config) :
    (place.machine patience).Follows config (place.Settled (frame :: rest) loops)
      (Effect.repeatPass (fun iteration => do
          match ← Effect.fromHeap fun heap => Iteration.next heap iteration with
          | none => return .inl .normal
          | some (value, next) =>
              Effect.bindName place.chain item value
              match (← body).afterPass with
              | some exit => return .inl exit
              | none =>
                  Effect.tick
                  return .inr next) patience iteration session) := by
  have same : { frame with iteration := none } = frame := by rw [← idle]
  refine repeatPass_follows (fun iteration session config => Sound session ∧
    place.Comes ((place.context ({ frame with iteration := some iteration } :: rest)).nextPass
      session.heap this item head) session config) ?_ (Nat.le_refl _) ⟨sound, comes⟩
  rintro iteration session config ⟨sound, comes⟩
  have begun : (place.context ({ frame with iteration := some iteration } ::
      rest)).iteration.bind (Iteration.next session.heap) =
        Iteration.next session.heap iteration := rfl
  unfold Context.nextPass at comes
  rw [begun] at comes
  cases taken : Iteration.next session.heap iteration with
  | none =>
      rw [taken] at comes
      have spent : (place.context ({ frame with iteration := some iteration } ::
          rest)).setIteration none = place.context (frame :: rest) :=
        congrArg (fun frame => place.context (frame :: rest)) same
      rw [spent] at comes
      refine ⟨comes.1, _, turn_of_done comes, ?_⟩
      rw [Effect.fromHeap_bind, taken]
      exact .pure ⟨sound, trivial, rfl⟩
  | some answer =>
      obtain ⟨value, next⟩ := answer
      rw [taken] at comes
      have entered : ((place.context ({ frame with iteration := some iteration } ::
          rest)).setIteration (some next)).enterLoopBody this head =
            (place.context (Frame.ofLoop this head :: { frame with iteration := some next } ::
              rest)).goTo head :=
        place.enterLoopBody_eq ({ frame with iteration := some next } :: rest) this head
      dsimp only at comes
      rw [entered] at comes
      refine ⟨comes.1, _, turn_of_done comes, ?_⟩
      rw [Effect.fromHeap_bind, taken]
      dsimp only
      rw [Effect.bindName_bind]
      refine Machine.Follows.bind (bodyFollows (some next) _ (sound.onHeap rfl)) ?_
      intro exit last stop settled
      have passed := pass_settled settled around current
      generalize exit.afterPass = outer at passed
      cases outer with
      | none =>
          obtain ⟨sound, rfl⟩ := passed
          dsimp only
          rw [Effect.tick_bind]
          exact .pure ⟨sound.tick,
            comes_of_begin { frame with iteration := some next } rest sound current found⟩
      | some outer => exact .pure (same ▸ passed)

private theorem for_follows {item : String} {tree : ExpressionTree} {iterable : ExpressionRef}
    {head : Option StatementRef} {span : Span} {body : Effect Exit}
    (around : Frame.Around (frame :: rest) loops) (current : frame.current = some this)
    (idle : frame.iteration = none) (sound : Sound session)
    (found : place.script.statement? this = some (.forLoop item iterable head span))
    (spelled : tree.At place.script iterable)
    (bodyFollows : ∀ iteration session, Sound session → (place.machine patience).Follows
      (place.resting ((place.context (Frame.ofLoop this head :: { frame with iteration } ::
        rest)).goTo head) session)
      (place.SettledBlock (Frame.ofLoop this head :: { frame with iteration } :: rest) (loops + 1))
      (body session))
    (comes : place.Comes ((place.context (frame :: rest)).beginStatement session.heap this
      (.forLoop item iterable head span)) session config) :
    (place.machine patience).Follows config (place.Settled (frame :: rest) loops)
      ((do
        let source ← tree.value call place.chain
        match Iteration.start source with
        | .error cause => Effect.fail span cause
        | .ok start =>
            Effect.repeatPass (fun iteration => do
              match ← Effect.fromHeap fun heap => Iteration.next heap iteration with
              | none => return .inl .normal
              | some (value, next) =>
                  Effect.bindName place.chain item value
                  match (← body).afterPass with
                  | some exit => return .inl exit
                  | none =>
                      Effect.tick
                      return .inr next) patience start : Effect Exit) session) := by
  have begins : (place.context (frame :: rest)).beginStatement session.heap this
      (.forLoop item iterable head span) =
        .evaluate iterable (.forLoop this item head span) (place.context (frame :: rest))
          session.heap := by
    have idle : (place.context (frame :: rest)).iteration = none := idle
    simp only [Context.beginStatement, idle]
  rw [begins] at comes
  refine Machine.Follows.bind (evaluate_follows evaluates sound spelled comes) ?_
  rintro source after stop ⟨sound, comes⟩
  simp only [Context.deliver] at comes
  cases started : Iteration.start source with
  | error cause =>
      rw [started] at comes
      exact fails_of_failed (.refl _) comes
  | ok start =>
      rw [started] at comes
      exact forPasses_follows around current idle found bodyFollows sound comes

end

mutual

/-- A session that stands on a statement does what executing its tree says. -/
theorem execute_follows (evaluates : ∀ (place : Place) frames continuation,
      (place.machine patience).Evaluates call Sound (place.evaluating frames continuation)
      place.script place.chain)
    (tree : StatementTree) {place : Place} {frame : Frame} {rest : List Frame} {loops start : Nat}
    {this : StatementRef} {session : Session} (laid : tree.Laid place.script start this)
    (around : Frame.Around (frame :: rest) loops) (current : frame.current = some this)
    (idle : frame.iteration = none) (sound : Sound session) :
    (place.machine patience).Follows (place.resting (place.context (frame :: rest)) session)
      (place.Settled (frame :: rest) loops)
      (tree.execute call patience place.script place.chain loops session) := by
  have begun {statement : Statement} (found : place.script.statement? this = some statement) :
      place.Comes ((place.context (frame :: rest)).beginStatement session.heap this statement)
        { session with now := session.now + 1 }
        (place.resting (place.context (frame :: rest)) session) :=
    comes_of_begin frame rest sound current found
  cases tree with
  | expression expression =>
      obtain ⟨node, found, spelled, _⟩ := laid
      exact discard_follows evaluates sound.tick spelled (begun found)
  | print values =>
      obtain ⟨nodes, found, spelled, _⟩ := laid
      exact print_follows evaluates sound.tick spelled (begun found)
  | assignName name operator value span =>
      obtain ⟨node, found, spelled, _⟩ := laid
      exact assignName_follows evaluates sound.tick spelled (begun found)
  | assignMember object name operator value span =>
      obtain ⟨target, node, found, objectSpelled, spelled, _⟩ := laid
      exact assignMember_follows evaluates sound.tick objectSpelled spelled (begun found)
  | assignElement object index operator value span =>
      obtain ⟨target, position, node, found, objectSpelled, indexSpelled, spelled, _⟩ := laid
      exact assignElement_follows evaluates sound.tick objectSpelled indexSpelled spelled
        (begun found)
  | branch branches =>
      obtain ⟨bodies, otherwise, found, laid⟩ := laid
      exact executeBranches_follows evaluates branches laid around current sound.tick (begun found)
  | whileLoop condition body =>
      obtain ⟨node, head, found, spelled, laid⟩ := laid
      refine while_follows evaluates around current idle sound found spelled ?_
      intro session sound
      exact executeBlock_follows evaluates body laid (.inr ⟨this, loops, rfl, rfl, rfl, around⟩) rfl
        sound
  | forLoop item iterable body span =>
      obtain ⟨node, head, found, spelled, laid⟩ := laid
      refine for_follows evaluates around current idle sound.tick found spelled ?_ (begun found)
      intro iteration session sound
      exact executeBlock_follows evaluates body laid (.inr ⟨this, loops, rfl, rfl, rfl, around⟩) rfl
        sound
  | breakLoops count span =>
      obtain ⟨found, _⟩ := laid
      exact break_follows around sound.tick (begun found)
  | continueLoop span =>
      obtain ⟨found, _⟩ := laid
      exact continue_follows around sound.tick (begun found)
  | returnValue value =>
      cases value with
      | none =>
          obtain ⟨found, _⟩ := laid
          exact settled_of_done (.returned .none) sound.tick trivial (begun found)
      | some value =>
          obtain ⟨node, found, spelled, _⟩ := laid
          exact return_follows evaluates sound.tick spelled (begun found)
  | pass =>
      obtain ⟨found, _⟩ := laid
      exact settled_of_done .normal sound.tick trivial (begun found)
  | delete name span =>
      obtain ⟨found, _⟩ := laid
      exact delete_follows sound.tick (begun found)
  | define name parameters entry body =>
      obtain ⟨found, laid⟩ := laid
      exact define_follows sound.tick ⟨body, _, _, laid, Nat.le_of_lt (Script.statement?_lt found)⟩
        (begun found)
  | record name body span =>
      obtain ⟨head, found, laid⟩ := laid
      refine record_follows (fun members => StatementTree.executeBlock call patience place.script
        ⟨members, place.chain.toList⟩ 0 body) sound.tick (begun found) fun members session sound => ?_
      have laid : BlockLaid (place.inRecord (frame :: rest) name span members).script body head start
        this.index := laid
      exact executeBlock_follows evaluates body laid (.inl ⟨rfl, rfl, rfl⟩) rfl sound

/-- Branches that are left to be tried do what executing their tree says. -/
theorem executeBranches_follows (evaluates : ∀ (place : Place) frames continuation,
      (place.machine patience).Evaluates call Sound (place.evaluating frames continuation)
      place.script place.chain)
    (tree : BranchTree) {place : Place} {frame : Frame} {rest : List Frame}
    {loops start stop : Nat} {this : StatementRef} {session config : Session}
    {branches : List (ExpressionRef × Option StatementRef)}
    {otherwise : Option (Option StatementRef)}
    (laid : tree.Laid place.script branches otherwise start stop)
    (around : Frame.Around (frame :: rest) loops) (current : frame.current = some this)
    (sound : Sound session)
    (comes : place.Comes ((place.context (frame :: rest)).tryBranches session.heap branches otherwise
      (place.script.next this)) session config) :
    (place.machine patience).Follows config (place.Settled (frame :: rest) loops)
      (tree.execute call patience place.script place.chain loops session) := by
  cases tree with
  | missing =>
      obtain ⟨rfl, rfl, _⟩ := laid
      exact settled_of_done .normal sound trivial comes
  | otherwise body =>
      obtain ⟨head, rfl, rfl, laid⟩ := laid
      exact branch_follows current comes
        (executeBlock_follows evaluates body laid (.inl ⟨rfl, rfl, around⟩) rfl sound)
  | test condition body more =>
      obtain ⟨node, head, others, middle, rfl, spelled, laid, moreLaid⟩ := laid
      refine Machine.Follows.bind (evaluate_follows evaluates sound spelled comes) ?_
      rintro holds after stop ⟨sound, comes⟩
      simp only [Context.deliver] at comes
      change (place.machine patience).Follows stop _ ((if after.heap.isTruthy holds = true then
        StatementTree.executeBlock call patience place.script place.chain loops body
        else more.execute call patience place.script place.chain loops) after)
      by_cases truthy : after.heap.isTruthy holds = true
      · rw [if_pos truthy] at comes ⊢
        exact branch_follows current comes
          (executeBlock_follows evaluates body laid (.inl ⟨rfl, rfl, around⟩) rfl sound)
      · rw [if_neg truthy] at comes ⊢
        exact executeBranches_follows evaluates more moreLaid around current sound comes

/-- A session that is about to run a block does what executing it says. -/
theorem executeBlock_follows (evaluates : ∀ (place : Place) frames continuation,
      (place.machine patience).Evaluates call Sound (place.evaluating frames continuation)
      place.script place.chain)
    (block : List StatementTree) {place : Place} {frame : Frame} {rest : List Frame}
    {loops start stop : Nat} {head : Option StatementRef} {session : Session}
    (laid : BlockLaid place.script block head start stop)
    (around : Frame.Around (frame :: rest) loops) (idle : frame.iteration = none)
    (sound : Sound session) :
    (place.machine patience).Follows
      (place.resting ((place.context (frame :: rest)).goTo head) session)
      (place.SettledBlock (frame :: rest) loops)
      (StatementTree.executeBlock call patience place.script place.chain loops block session) := by
  cases block with
  | nil =>
      obtain ⟨rfl, _⟩ := laid
      exact .pure ⟨sound, trivial, rfl⟩
  | cons tree block =>
      obtain ⟨this, rfl, treeLaid, blockLaid⟩ := laid
      rw [Scope.goTo_some]
      refine Machine.Follows.bind
        (execute_follows evaluates tree treeLaid around rfl idle sound) ?_
      rintro exit after stop ⟨sound, within, rfl⟩
      have abruptly (abrupt : exit ≠ .normal) :
          exit.settle (place.context ({ frame with current := some this } :: rest)) =
            exit.settle (place.context (frame :: rest)) :=
        Exit.settle_cons place.toScope abrupt { frame with current := some this } frame rfl rfl rest
      cases exit with
      | normal =>
          have goes : Exit.normal.settle (place.context ({ frame with current := some this } ::
              rest)) = (place.context (frame :: rest)).goTo (place.script.next this) :=
            place.goTo_cons frame (some this) (place.script.next this) rest
          rw [goes]
          exact executeBlock_follows evaluates block blockLaid around idle sound
      | leaving more =>
          rw [abruptly nofun]
          exact .pure ⟨sound, within, rfl⟩
      | continuing =>
          rw [abruptly nofun]
          exact .pure ⟨sound, within, rfl⟩
      | returned value =>
          rw [abruptly nofun]
          exact .pure ⟨sound, within, rfl⟩

end

end ScriptEngine.Place
