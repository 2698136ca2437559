import Mathlib
import ScriptEngine.Proofs.Machine.Balance
import ScriptEngine.Proofs.Machine.Expression
import ScriptEngine.Proofs.Machine.Reached

/-!
# Evaluation outside of contexts

An operation of a host that ends within some number of turns ends in the same way
within any larger number. So the turns of an evaluation that a host runs make a
machine, and this machine does what recursion over the expression says.
-/

set_option autoImplicit false

namespace ScriptEngine

namespace Session

/-- Turns that were enough to come to an end are as good as any larger number. -/
theorem runToEnd_of_le {turns more : Nat} (le : turns ≤ more) {session : Session}
    (ended : (runToEnd turns session).1 ≠ .unfinished) :
    runToEnd more session = runToEnd turns session := by
  induction turns generalizing more session with
  | zero => exact (ended rfl).elim
  | succ turns ih =>
      obtain ⟨more, rfl⟩ := Nat.exists_eq_succ_of_ne_zero (Nat.ne_zero_of_lt le)
      simp only [runToEnd] at ended ⊢
      generalize session.advance = answer at ended ⊢
      obtain ⟨progress, after⟩ := answer
      cases progress with
      | working => exact ih (Nat.le_of_succ_le_succ le) ended
      | idle | failed | endless => rfl

theorem runContext_of_le {turns more : Nat} (le : turns ≤ more) {session : Session}
    {context : Context} (ended : (runContext turns session context).1 ≠ .unfinished) :
    runContext more session context = runContext turns session context := by
  simp only [runContext] at ended ⊢
  rw [runToEnd_of_le le]
  intro unfinished
  generalize runToEnd turns _ = answer at ended unfinished
  obtain ⟨answer, after⟩ := answer
  cases unfinished
  exact ended rfl

theorem call_of_le {turns more : Nat} (le : turns ≤ more) {session : Session}
    {function : FunctionRef} {arguments : List Value} {receiver : Option Value}
    (ended : (call turns session function arguments receiver).1 ≠ .unfinished) :
    call more session function arguments receiver =
      call turns session function arguments receiver := by
  simp only [call] at ended ⊢
  split at ended
  · rfl
  · split at ended
    · rfl
    · exact runContext_of_le le ended

theorem finishEvaluation_of_le {turns more : Nat} (le : turns ≤ more) {session : Session}
    {evaluation : Evaluation} (ended : (finishEvaluation turns session evaluation).1 ≠ .unfinished) :
    finishEvaluation more session evaluation = finishEvaluation turns session evaluation := by
  induction turns generalizing more session evaluation with
  | zero => exact (ended rfl).elim
  | succ turns ih =>
      obtain ⟨more, rfl⟩ := Nat.exists_eq_succ_of_ne_zero (Nat.ne_zero_of_lt le)
      have le := Nat.le_of_succ_le_succ le
      simp only [finishEvaluation] at ended ⊢
      generalize evaluation.advance session.heap = answer at ended ⊢
      obtain ⟨turn, after, heap⟩ := answer
      cases turn with
      | working => exact ih le ended
      | finished | failed | endless => rfl
      | call request scope =>
          simp only at ended ⊢
          rw [call_of_le le]
          · generalize call turns _ _ _ _ = answer at ended ⊢
            obtain ⟨answer, called⟩ := answer
            cases answer with
            | value value => exact ih le ended
            | failed | unfinished => rfl
          · intro unfinished
            generalize call turns _ _ _ _ = answer at ended unfinished
            obtain ⟨answer, called⟩ := answer
            cases unfinished
            exact ended rfl

/-- A call that is answered within a number of turns, or not at all. -/
def callWithin (turns : Nat) (request : CallRequest) : Effect Value := fun session =>
  session.call turns request.function request.arguments request.receiver

private theorem finishEvaluation_called {session : Session} {evaluation after : Evaluation}
    {heap : Heap} {request : CallRequest} {scope : Option Value} (turns : Nat)
    (turn : evaluation.advance session.heap = (.call request scope, after, heap)) :
    finishEvaluation (turns + 1) session evaluation =
      match callWithin turns request { session with heap } with
      | (.value value, session) => finishEvaluation turns session (after.pushResult value scope)
      | (.failed failure, session) =>
          (.failed (failure.withDefaultSpan request.span), after, session)
      | (.unfinished, session) => (.unfinished, after, session) := by
  rw [finishEvaluation, turn]
  rfl

/-- The turns of an evaluation that a host runs, as long as nobody waits for more
than `patience` turns. -/
def evaluationMachine (patience : Nat) : Machine where
  Configuration := Evaluation × Session
  Reaches start stop := ∃ steps, ∀ turns, patience ≤ turns →
    finishEvaluation (turns + steps) start.2 start.1 = finishEvaluation turns stop.2 stop.1
  Lasts start := (finishEvaluation patience start.2 start.1).1 = .unfinished
  Fails failure session start := ∃ turns left,
    finishEvaluation turns start.2 start.1 = (.failed failure, left, session)
  refl _ := ⟨0, fun _ _ => rfl⟩
  trans early late := by
    obtain ⟨steps, early⟩ := early
    obtain ⟨more, late⟩ := late
    refine ⟨more + steps, fun turns enough => ?_⟩
    rw [← Nat.add_assoc, early _ (by omega), late turns enough]
  lasts reached lasts := by
    obtain ⟨steps, reached⟩ := reached
    by_contra ended
    rw [← reached patience (Nat.le_refl _), finishEvaluation_of_le (by omega) ended] at lasts
    exact ended lasts
  fails reached failed := by
    obtain ⟨steps, reached⟩ := reached
    obtain ⟨turns, left, failed⟩ := failed
    refine ⟨max patience turns + steps, left, ?_⟩
    rw [reached _ (by omega), finishEvaluation_of_le (by omega : turns ≤ _) (by rw [failed]; nofun),
      failed]

theorem evaluationMachine_evaluates (patience : Nat) (script : Script) (chain : ScopeChain) :
    (evaluationMachine patience).Evaluates (callWithin patience) (fun _ => True) Prod.mk script
      chain where
  working _ turn := by
    refine ⟨trivial, 1, fun turns _ => ?_⟩
    simp only [finishEvaluation, turn]
  failed {_ _ _ _ after session heap failure} _ turn := by
    refine ⟨1, after, ?_⟩
    simp only [finishEvaluation, turn]
  endless {pending results names current after session heap} _ turn := by
    change (finishEvaluation patience _ _).1 = .unfinished
    cases patience with
    | zero => rfl
    | succ turns => simp only [finishEvaluation, turn]
  called {pending results names current after session heap request scope} _ turn := by
    generalize (⟨script, chain, pending, results, names, current⟩ : Evaluation) = evaluation at turn ⊢
    have within (turns : Nat) (le : turns ≤ patience)
        (ended : (callWithin turns request { session with heap }).1 ≠ .unfinished) :
        callWithin patience request { session with heap } =
          callWithin turns request { session with heap } := call_of_le le ended
    have beyond (turns : Nat) (le : patience ≤ turns)
        (ended : (callWithin patience request { session with heap }).1 ≠ .unfinished) :
        callWithin turns request { session with heap } =
          callWithin patience request { session with heap } := call_of_le le ended
    have step (turns : Nat) := finishEvaluation_called turns turn
    unfold Effect.locatedAt
    generalize called : callWithin patience request { session with heap } = answer at *
    obtain ⟨answer, middle⟩ := answer
    cases answer with
    | value value =>
        refine ⟨_, ⟨1, fun turns enough => ?_⟩, trivial, rfl⟩
        rw [step, beyond turns enough nofun]
    | failed failure =>
        refine ⟨patience + 1, after, ?_⟩
        rw [step, called]
    | unfinished =>
        show (finishEvaluation patience session evaluation).1 = .unfinished
        cases patience with
        | zero => rfl
        | succ turns =>
            rw [step]
            generalize inner : callWithin turns request { session with heap } = answer
            obtain ⟨answer, last⟩ := answer
            cases answer with
            | unfinished => rfl
            | value | failed =>
                have same := within turns (Nat.le_succ _) (by rw [inner]; nofun)
                rw [inner] at same
                cases same

/-- What recursion over the tree of an expression says about its evaluation. -/
theorem evaluate_of_value {evaluation : Evaluation} {node : ExpressionRef} {tree : ExpressionTree}
    (spelled : tree.At evaluation.script node) (turns : Nat) (session : Session) :
    match tree.value (callWithin turns) evaluation.chain session with
    | (.value value, after) => ∃ enough, session.evaluate enough evaluation node =
        (.value value, Evaluation.new evaluation.script evaluation.chain, after)
    | (.failed failure, after) => ∃ enough left,
        session.evaluate enough evaluation node = (.failed failure, left, after)
    | (.unfinished, _) => (session.evaluate turns evaluation node).1 = .unfinished := by
  have follows :=
    (evaluationMachine_evaluates turns evaluation.script evaluation.chain).value_follows spelled
    session trivial
  generalize tree.value (callWithin turns) evaluation.chain session = answer at follows
  obtain ⟨answer, after⟩ := answer
  cases answer with
  | value value =>
      obtain ⟨stop, ⟨steps, reached⟩, _, last, rfl, finished⟩ := follows
      refine ⟨turns + 1 + steps, ?_⟩
      have start := reached (turns + 1) (Nat.le_succ _)
      simp only [finishEvaluation, finished] at start
      exact start
  | failed failure => exact follows
  | unfinished => exact follows

theorem evaluate_unique {first second : Nat} {session : Session} {evaluation : Evaluation}
    {node : ExpressionRef} (ended : (session.evaluate first evaluation node).1 ≠ .unfinished)
    (again : (session.evaluate second evaluation node).1 ≠ .unfinished) :
    session.evaluate first evaluation node = session.evaluate second evaluation node :=
  (finishEvaluation_of_le (Nat.le_max_left first second) ended).symm.trans
    (finishEvaluation_of_le (Nat.le_max_right first second) again)

/-- An evaluation that comes to an end does what recursion says, and leaves nothing
behind if it gives a value. -/
theorem value_of_evaluate {evaluation left : Evaluation} {node : ExpressionRef}
    {tree : ExpressionTree} (spelled : tree.At evaluation.script node) {turns : Nat}
    {session after : Session} {answer : Answer Value}
    (ended : session.evaluate turns evaluation node = (answer, left, after))
    (finished : answer ≠ .unfinished) :
    tree.value (callWithin turns) evaluation.chain session = (answer, after) ∧
      ∀ value, answer = .value value →
        left = Evaluation.new evaluation.script evaluation.chain := by
  have said := evaluate_of_value spelled turns session
  have finished : (session.evaluate turns evaluation node).1 ≠ .unfinished := by
    rw [ended]
    exact finished
  generalize tree.value (callWithin turns) evaluation.chain session = reference at said ⊢
  obtain ⟨reference, final⟩ := reference
  cases reference with
  | value value =>
      obtain ⟨enough, evaluated⟩ := said
      have again : (session.evaluate enough evaluation node).1 ≠ .unfinished := by
        rw [evaluated]
        nofun
      have same := evaluate_unique finished again
      rw [ended, evaluated] at same
      cases same
      exact ⟨rfl, fun _ _ => rfl⟩
  | failed failure =>
      obtain ⟨enough, last, evaluated⟩ := said
      have again : (session.evaluate enough evaluation node).1 ≠ .unfinished := by
        rw [evaluated]
        nofun
      have same := evaluate_unique finished again
      rw [ended, evaluated] at same
      cases same
      exact ⟨rfl, nofun⟩
  | unfinished => exact (finished said).elim

/-- In a session whose evaluations fit their results no error of an evaluation is
about results that it left behind. -/
theorem ordinary_finishEvaluation (turns : Nat) {session : Session} (evaluation : Evaluation)
    (fine : balance.SessionFine session) (planted : evaluation.script.Planted)
    (balanced : evaluation.Balanced 0) {failure : RuntimeError}
    (failed : (finishEvaluation turns session evaluation).1 = .failed failure) :
    failure.cause.Ordinary := by
  induction turns generalizing session evaluation with
  | zero => cases failed
  | succ turns ih =>
      have turn := Evaluation.advance_balanced planted balanced session.heap
      obtain ⟨place, objects⟩ := evaluation.advance_keeps session.heap
      simp only [finishEvaluation] at failed
      generalize evaluation.advance session.heap = answer at turn place objects failed
      obtain ⟨answer, after, heap⟩ := answer
      have afterPlanted : after.script.Planted := place.script ▸ planted
      have afterFine : balance.SessionFine { session with heap } :=
        ⟨fine.heap.of_keeps objects.functions, fine.stack⟩
      cases answer with
      | working => exact ih after afterFine afterPlanted turn failed
      | finished | endless => cases failed
      | failed cause =>
          cases failed
          exact turn
      | call request scope =>
          have called := LocalInvariant.call_fine Balance.kept.toKeptByTurns turns afterFine
            request.function request.arguments request.receiver
          dsimp only at failed
          generalize call turns _ _ _ _ = answer at called failed
          obtain ⟨answer, last⟩ := answer
          cases answer with
          | value value =>
              have more : after.Balanced 1 := turn
              have later : (after.pushResult value scope).Balanced 0 := by
                simpa [Evaluation.Balanced, Evaluation.pushResult] using more
              exact ih (after.pushResult value scope) called.session afterPlanted later failed
          | failed cause =>
              cases failed
              exact called.error cause rfl
          | unfinished => cases failed

/-- Every context that is in the middle of an expression has results that fit its
pending nodes, and so has every function that can be called. Every session that a
host can reach is like that (`Reached.balanced`). -/
def Balanced (session : Session) : Prop :=
  balance.SessionFine session

theorem Reached.balanced {session : Session} (reached : session.Reached) : session.Balanced :=
  LocalInvariant.reached_fine Balance.kept reached

/-- Evaluating an expression of a script that the parser built, whatever an earlier
evaluation left behind, ends exactly as recursion over the expression's tree does.
Afterwards nothing is left behind, and no error is about results left behind. -/
theorem evaluate_refines_recursion {script : Script} (parsed : script.Parsed)
    {node : ExpressionRef} (present : node.index < script.expressions.size) (session : Session)
    (evaluation : Evaluation) (own : evaluation.script = script) :
    ∃ tree, script.expressionTree? node = some tree ∧
      (∀ answer after, answer ≠ .unfinished →
        ((∃ turns left, session.evaluate turns evaluation node = (answer, left, after)) ↔
          ∃ turns, tree.value (callWithin turns) evaluation.chain session = (answer, after))) ∧
      (∀ turns value left after,
        session.evaluate turns evaluation node = (.value value, left, after) →
          left = Evaluation.new script evaluation.chain) ∧
      (session.Balanced → ∀ turns failure left after,
        session.evaluate turns evaluation node = (.failed failure, left, after) →
          ∀ count, failure.cause ≠ .unbalancedResults count) := by
  subst own
  obtain ⟨tree, spelled⟩ := parsed.planted node present
  refine ⟨tree, Script.expressionTree?_of_at spelled, ?_, ?_, ?_⟩
  · intro answer after finished
    constructor
    · rintro ⟨turns, left, ended⟩
      exact ⟨turns, (value_of_evaluate spelled ended finished).1⟩
    · rintro ⟨turns, reference⟩
      have said := evaluate_of_value spelled turns session
      rw [reference] at said
      cases answer with
      | value value =>
          obtain ⟨enough, evaluated⟩ := said
          exact ⟨enough, _, evaluated⟩
      | failed failure => exact said
      | unfinished => exact (finished rfl).elim
  · intro turns value left after ended
    exact (value_of_evaluate spelled ended nofun).2 value rfl
  · intro balanced turns failure left after ended
    have failed : (finishEvaluation turns session (evaluation.begin node)).1 = .failed failure :=
      congrArg Prod.fst ended
    exact RuntimeCause.ordinary_iff.mp
      (ordinary_finishEvaluation turns (evaluation.begin node) balanced parsed.planted
        (Evaluation.balanced_begin spelled) failed)

/-- `not x` is such an expression; an evaluation of `x` was left in the middle. -/
theorem evaluate_negated_name :
    ∃ (script : Script) (node : ExpressionRef), script.Parsed ∧
      node.index < script.expressions.size ∧
      let debris : Evaluation :=
        ⟨script, ⟨⟨0⟩, []⟩, [⟨⟨0⟩, none⟩], [⟨.none, none⟩], none, some ⟨0⟩⟩
      ∃ tree, script.expressionTree? node = some tree ∧
        (∀ answer after, answer ≠ .unfinished →
          ((∃ turns left, (Session.new none).evaluate turns debris node = (answer, left, after)) ↔
            ∃ turns, tree.value (callWithin turns) ⟨⟨0⟩, []⟩ (Session.new none) =
              (answer, after))) ∧
        ∀ turns failure left after,
          (Session.new none).evaluate turns debris node = (.failed failure, left, after) →
            ∀ count, failure.cause ≠ .unbalancedResults count := by
  have accepted : (Cursor.ofSource "not x").takeExpression.toBool = true := by cbv
  cases taken : (Cursor.ofSource "not x").takeExpression with
  | error failure =>
      rw [taken] at accepted
      cases accepted
  | ok answer =>
      obtain ⟨node, cursor⟩ := answer
      have parsed : cursor.script.Parsed := .building (.expression (.source _) taken)
      have present := (Cursor.takeExpression_roots taken).2
      obtain ⟨tree, found, agrees, _, ordinary⟩ := evaluate_refines_recursion parsed present
        (Session.new none) ⟨cursor.script, ⟨⟨0⟩, []⟩, [⟨⟨0⟩, none⟩], [⟨.none, none⟩], none,
          some ⟨0⟩⟩ rfl
      exact ⟨cursor.script, node, parsed, present, tree, found, agrees,
        ordinary (Reached.new none).balanced⟩

end Session

end ScriptEngine
