import ScriptEngine.Proofs.Evaluation.Visits
import ScriptEngine.Proofs.Grammar.SimpleRoundTrip
import ScriptEngine.Proofs.Machine.Expression
import ScriptEngine.Proofs.Machine.Failing
import ScriptEngine.Proofs.Recursive.Statement
import ScriptEngine.Proofs.Recursive.Term

/-!
# Evaluating terms turn by turn

The turns of an expression without calls give the value of its term or fail, or one of them goes
on forever, and they evaluate each node once, in order (`Session.comes_of_value`). So a session
gets from the statement that asks for the value to where the statement is handed it.
-/

set_option autoImplicit false

namespace ScriptEngine

/-!
## Nodes without calls
-/

/-- A node that is no call contains none if its children do not. -/
theorem Script.callFree_of_children {script : Script} {node : ExpressionRef}
    {expression : Expression} (found : script.expression? node = some expression)
    (plain : expression.isCall = false)
    (children : ∀ child ∈ expression.children, script.CallFree child) : script.CallFree node := by
  intro inner inside callee arguments span call
  cases inside with
  | self =>
      rw [found] at call
      cases call
      cases plain
  | part foundToo member inside =>
      obtain rfl := Option.some.inj (found.symm.trans foundToo)
      exact children _ member inner inside callee arguments span call

namespace ExpressionTree

variable {script : Script}

mutual

/-- A term without calls is spelled by nodes without calls. -/
theorem At.callFree {tree : ExpressionTree} {node : ExpressionRef} (spelled : tree.At script node)
    (free : tree.term.CallFree) : script.CallFree node := by
  cases tree with
  | constant value span => exact Script.callFree_of_children spelled rfl (List.forall_mem_nil _)
  | name identifier span => exact Script.callFree_of_children spelled rfl (List.forall_mem_nil _)
  | unary operator operand span =>
      obtain ⟨inner, found, _, operandAt⟩ := spelled
      exact Script.callFree_of_children found rfl
        (List.forall_mem_singleton.mpr (operandAt.callFree free))
  | binary operator left right span =>
      obtain ⟨first, second, found, ⟨_, leftAt⟩, _, rightAt⟩ := spelled
      exact Script.callFree_of_children found rfl (List.forall_mem_cons.mpr
        ⟨leftAt.callFree free.1, List.forall_mem_singleton.mpr (rightAt.callFree free.2)⟩)
  | shortCircuit operator left right span =>
      obtain ⟨first, second, found, ⟨_, leftAt⟩, _, rightAt⟩ := spelled
      exact Script.callFree_of_children found rfl (List.forall_mem_cons.mpr
        ⟨leftAt.callFree free.1, List.forall_mem_singleton.mpr (rightAt.callFree free.2)⟩)
  | member object identifier nameSpan span =>
      obtain ⟨inner, last, found, ⟨_, objectAt⟩, _, lastFound⟩ := spelled
      have lastFree : script.CallFree last :=
        Script.callFree_of_children lastFound rfl (List.forall_mem_nil _)
      exact Script.callFree_of_children found rfl (List.forall_mem_cons.mpr
        ⟨objectAt.callFree free, List.forall_mem_singleton.mpr lastFree⟩)
  | element object position span =>
      obtain ⟨first, second, found, ⟨_, objectAt⟩, _, positionAt⟩ := spelled
      exact Script.callFree_of_children found rfl (List.forall_mem_cons.mpr
        ⟨objectAt.callFree free.1, List.forall_mem_singleton.mpr (positionAt.callFree free.2)⟩)
  | array elements span =>
      obtain ⟨items, found, elementsAt⟩ := spelled
      exact Script.callFree_of_children found rfl (elementsAt.callFree free)
  | call callee arguments span => exact free.elim

theorem AllAt.callFree {trees : List ExpressionTree} {nodes : List ExpressionRef} {bound : Nat}
    (spelled : AllAt script trees nodes bound)
    (free : Term.AllCallFree (ExpressionTree.terms trees)) :
    ∀ node ∈ nodes, script.CallFree node := by
  cases trees with
  | nil =>
      cases nodes with
      | nil => exact List.forall_mem_nil _
      | cons => exact spelled.elim
  | cons tree trees =>
      cases nodes with
      | nil => exact spelled.elim
      | cons node nodes =>
          obtain ⟨⟨_, treeAt⟩, treesAt⟩ := spelled
          exact List.forall_mem_cons.mpr ⟨treeAt.callFree free.1, treesAt.callFree free.2⟩

end

end ExpressionTree

/-!
## Evaluations
-/

namespace Evaluation

/-- The one evaluation gets to the other by the turns of these nodes. -/
inductive Works : Evaluation → Heap → List ExpressionRef → Evaluation → Heap → Prop where
  | refl (evaluation : Evaluation) (heap : Heap) : Works evaluation heap [] evaluation heap
  | turn {evaluation after last : Evaluation} {heap grown final : Heap} {waiting : PendingNode}
      {pending : List PendingNode} {seen : List ExpressionRef}
      (next : evaluation.pending = waiting :: pending)
      (working : evaluation.advance heap = (.working, after, grown))
      (rest : Works after grown seen last final) :
      Works evaluation heap (waiting.node :: seen) last final

namespace Works

variable {first second third : Evaluation} {heap middle final : Heap}
  {seen later : List ExpressionRef}

theorem trans (early : Works first heap seen second middle)
    (late : Works second middle later third final) :
    Works first heap (seen ++ later) third final := by
  induction early with
  | refl => exact late
  | turn next working _ ih => exact .turn next working (ih late)

theorem leaves (works : Works first heap seen second final) :
    Leaves first.script first.pending seen second.pending := by
  induction works with
  | refl => exact .refl _
  | @turn evaluation _ _ heap _ _ _ _ _ next working _ ih =>
      obtain ⟨waiting, pending, same, pops⟩ := pops_of_working evaluation heap working
      obtain ⟨rfl, rfl⟩ := List.cons.inj (next.symm.trans same)
      have kept := (evaluation.advance_keeps heap).1.script
      rw [working] at kept
      rw [kept] at ih
      rw [next]
      exact .turn pops ih

theorem callFree (works : Works first heap seen second final) (free : first.CallFree) :
    second.CallFree := by
  induction works with
  | refl => exact free
  | @turn evaluation _ _ heap _ _ _ _ _ next working _ ih =>
      have kept := (free.advance heap).1
      rw [working] at kept
      exact ih kept

end Works

/-- The turn that gives a value is that of no node. -/
theorem pending_of_finished {evaluation : Evaluation} {heap : Heap} {value : Value}
    {after : Evaluation × Heap} (finished : evaluation.advance heap = (.finished value, after)) :
    evaluation.pending = [] := by
  unfold advance at finished
  split at finished
  · assumption
  · dsimp only at finished
    split at finished
    · cases finished
    · split at finished <;> cases finished

/-- The turns of an evaluation. Nobody answers a call. -/
def turns : Machine where
  Configuration := Evaluation × Heap
  Reaches start stop := ∃ seen, Works start.1 start.2 seen stop.1 stop.2
  Lasts start := ∃ seen last heap turn after, Works start.1 start.2 seen last heap ∧
    last.advance heap = (turn, after) ∧ (turn = .endless ∨ ∃ request scope, turn = .call request scope)
  Fails _ _ start := ∃ seen last heap failure after,
    Works start.1 start.2 seen last heap ∧ last.advance heap = (.failed failure, after)
  refl start := ⟨[], .refl _ _⟩
  trans early late := by
    obtain ⟨seen, early⟩ := early
    obtain ⟨later, late⟩ := late
    exact ⟨seen ++ later, early.trans late⟩
  lasts early late := by
    obtain ⟨seen, early⟩ := early
    obtain ⟨later, last, heap, turn, after, late, rest⟩ := late
    exact ⟨seen ++ later, last, heap, turn, after, early.trans late, rest⟩
  fails early late := by
    obtain ⟨seen, early⟩ := early
    obtain ⟨later, last, heap, failure, after, late, failed⟩ := late
    exact ⟨seen ++ later, last, heap, failure, after, early.trans late, failed⟩

theorem evaluates_turns (script : Script) (chain : ScopeChain) :
    turns.Evaluates (fun _ => Effect.never) (fun _ => True)
      (fun evaluation session => (evaluation, session.heap)) script chain where
  working := by
    intro pending results names current after session heap _ turn
    obtain ⟨waiting, later, next, _⟩ := pops_of_working _ _ turn
    exact ⟨trivial, _, .turn next turn (.refl _ _)⟩
  failed := by
    intro pending results names current after session heap failure _ turn
    exact ⟨[], _, _, failure, _, .refl _ _, turn⟩
  endless _ turn := ⟨[], _, _, _, _, .refl _ _, turn, .inl rfl⟩
  called _ turn := ⟨[], _, _, _, _, .refl _ _, turn, .inr ⟨_, _, rfl⟩⟩

/-- If the term has a value, then the turns of its nodes lead to it. If it has none, then one of
the turns fails or goes on forever. -/
theorem works {script : Script} {term : Term} {node : ExpressionRef}
    (spelled : term.At script node) (free : term.CallFree) (chain : ScopeChain) (heap : Heap) :
    match term.evaluate chain heap with
    | .value (value, grown) =>
        ∃ seen last, Works ((new script chain).begin node) heap seen last grown ∧
          last.advance grown = (.finished value, new script chain, grown) ∧
          script.Visits node seen
    | .failed =>
        ∃ seen last grown failure after,
          Works ((new script chain).begin node) heap seen last grown ∧
          last.advance grown = (.failed failure, after) ∧
          script.Visited [node] (seen ++ (last.pending.head?.map PendingNode.node).toList)
    | .endless =>
        ∃ seen last grown after,
          Works ((new script chain).begin node) heap seen last grown ∧
          last.advance grown = (.endless, after) ∧
          script.Visited [node] (seen ++ (last.pending.head?.map PendingNode.node).toList) := by
  obtain ⟨tree, treeAt, rfl⟩ := spelled
  have follows := (evaluates_turns script chain).value_follows treeAt
    { Session.new none with heap } trivial
  have performs := tree.performs_value (fun _ => Effect.never) chain free
    { Session.new none with heap }
  dsimp only at performs
  generalize tree.term.evaluate chain heap = answer at performs ⊢
  cases answer with
  | value answer =>
      obtain ⟨_, evaluated, rfl⟩ := performs
      rw [evaluated] at follows
      obtain ⟨_, ⟨seen, works⟩, _, last, rfl, finished⟩ := follows
      refine ⟨seen, last, works, finished, ?_⟩
      have leaves := works.leaves
      rw [pending_of_finished finished] at leaves
      exact leaves.visits treeAt
  | failed =>
      obtain ⟨_, _, evaluated⟩ := performs
      rw [evaluated] at follows
      obtain ⟨seen, last, grown, failure, after, works, failed⟩ := follows
      exact ⟨seen, last, grown, failure, after, works, failed, works.leaves.visited treeAt⟩
  | endless =>
      obtain ⟨_, evaluated⟩ := performs
      rw [evaluated] at follows
      obtain ⟨seen, last, grown, turn, after, works, taken, rfl | ⟨request, scope, rfl⟩⟩ := follows
      · exact ⟨seen, last, grown, after, works, taken, works.leaves.visited treeAt⟩
      · have begun : ((new script chain).begin node).CallFree :=
          callFree_begin (treeAt.callFree free)
        have asks := ((works.callFree begun).advance grown).2 request scope
        rw [taken] at asks
        exact (asks rfl).elim

end Evaluation

/-!
## Sessions
-/

/-- The context between two evaluations. -/
def Context.fresh (context : Context) : Context :=
  { context with evaluation := .new context.script context.evaluation.chain }

namespace Session

/-- An expression is evaluated in the innermost context. -/
def isEvaluating (session : Session) : Bool :=
  match session.stack with
  | ⟨_, .evaluating _⟩ :: _ => true
  | _ => false

/-- The node whose turn it is, if it is the turn of a node. -/
def visiting (session : Session) : List ExpressionRef :=
  match session.stack with
  | ⟨context, .evaluating _⟩ :: _ => (context.evaluation.pending.head?.map PendingNode.node).toList
  | _ => []

/-- What the answer of a turn comes to in the end: as long as an expression is evaluated, the
next turn goes on, up to one that goes on forever. The list tells which nodes are evaluated
meanwhile. -/
inductive Comes : Progress × Session → List ExpressionRef → Progress × Session → Prop where
  | ended {answer : Progress × Session} (ended : answer.2.isEvaluating = false) :
      Comes answer [] answer
  | endless (session : Session) : Comes (.endless, session) [] (.endless, session)
  | turn {session : Session} {nodes : List ExpressionRef} {answer : Progress × Session}
      (evaluating : session.isEvaluating = true) (rest : Comes session.advance nodes answer) :
      Comes (.working, session) (session.visiting ++ nodes) answer

/-- There is only one thing that it can come to. -/
theorem Comes.unique {start first second : Progress × Session} {seen other : List ExpressionRef}
    (one : Comes start seen first) (two : Comes start other second) :
    seen = other ∧ first = second := by
  induction one generalizing other second with
  | ended ended =>
      cases two with
      | ended | endless => exact ⟨rfl, rfl⟩
      | turn evaluating => exact absurd (ended.symm.trans evaluating) Bool.false_ne_true
  | endless =>
      cases two
      all_goals exact ⟨rfl, rfl⟩
  | turn evaluating _ ih =>
      cases two with
      | ended ended => exact absurd (ended.symm.trans evaluating) Bool.false_ne_true
      | turn _ rest =>
          obtain ⟨rfl, rfl⟩ := ih rest
          exact ⟨rfl, rfl⟩

/-- The session is in the middle of an evaluation. -/
def evaluatingIn (session : Session) (context : Context) (continuation : Continuation)
    (below : List Activation) (evaluation : Evaluation) (heap : Heap) : Session :=
  { session with heap, stack := ⟨{ context with evaluation }, .evaluating continuation⟩ :: below }

theorem settleStatement_of_same (session : Session) (stack : List Activation) (heap : Heap)
    (outcome : StatementOutcome) (below : List Activation) :
    ({ session with stack, heap } : Session).settleStatement outcome below =
      session.settleStatement outcome below := by
  cases outcome <;> rfl

/-- An error ends what is evaluated. -/
theorem comes_of_raise (session : Session) (failure : RuntimeError) (top : Activation)
    (below : List Activation) :
    ∃ cause after, Comes (session.raise failure top below) [] (.failed cause, after) := by
  obtain ⟨resting, others, stack⟩ := session.stack_of_raise failure top below
  refine ⟨_, _, .ended ?_⟩
  rw [isEvaluating, stack]

section

variable {session : Session} {context : Context} {continuation : Continuation}
  {below : List Activation}

/-- The turns of nodes are turns of the session. -/
theorem comes_of_works {first last : Evaluation} {heap grown : Heap}
    {seen later : List ExpressionRef} {answer : Progress × Session}
    (works : first.Works heap seen last grown)
    (comes : Comes (.working, session.evaluatingIn context continuation below last grown) later
      answer) :
    Comes (.working, session.evaluatingIn context continuation below first heap) (seen ++ later)
      answer := by
  induction works with
  | refl => exact comes
  | @turn evaluation after _ heap grown _ waiting _ _ next working _ ih =>
      have turn : (session.evaluatingIn context continuation below evaluation heap).advance =
          (.working, session.evaluatingIn context continuation below after grown) := by
        simp only [evaluatingIn, Session.advance, working]
      have visiting : (session.evaluatingIn context continuation below evaluation heap).visiting =
          [waiting.node] := by
        simp only [evaluatingIn, Session.visiting, next]
        rfl
      have whole := ih comes
      rw [← turn] at whole
      have first : Comes (.working, session.evaluatingIn context continuation below evaluation heap)
        _ answer := .turn rfl whole
      rwa [visiting] at first

variable {node : ExpressionRef} {term : Term} (spelled : term.At context.script node)
  (free : term.CallFree) {heap : Heap}

include spelled free

/-- The statement gets the value that it waits for. -/
theorem comes_of_value {value : Value} {grown : Heap}
    (given : term.evaluate context.evaluation.chain heap = .value (value, grown)) :
    ∃ seen, context.script.Visits node seen ∧ ∀ later answer,
      Comes (session.settleStatement (context.fresh.deliver grown continuation value) below) later
        answer →
      Comes (session.settleStatement (.evaluate node continuation context heap) below)
        (seen ++ later) answer := by
  have works := Evaluation.works spelled free context.evaluation.chain heap
  rw [given] at works
  obtain ⟨seen, last, works, finished, visits⟩ := works
  refine ⟨seen, visits, fun later answer comes => comes_of_works works ?_⟩
  have turn : (session.evaluatingIn context continuation below last grown).advance =
      session.settleStatement (context.fresh.deliver grown continuation value) below := by
    rw [advance_of_finished rfl finished]
    exact settleStatement_of_same session _ grown _ below
  have visiting : (session.evaluatingIn context continuation below last grown).visiting = [] := by
    simp only [evaluatingIn, Session.visiting, Evaluation.pending_of_finished finished]
    rfl
  rw [← turn] at comes
  have first : Comes (.working, session.evaluatingIn context continuation below last grown) _
    answer := .turn rfl comes
  rwa [visiting] at first

theorem comes_of_failed (failed : term.evaluate context.evaluation.chain heap = .failed) :
    ∃ seen failure after, context.script.Visited [node] seen ∧
      Comes (session.settleStatement (.evaluate node continuation context heap) below) seen
        (.failed failure, after) := by
  have works := Evaluation.works spelled free context.evaluation.chain heap
  rw [failed] at works
  obtain ⟨seen, last, grown, failure, after, works, failed, visited⟩ := works
  obtain ⟨raising, top, turn⟩ : ∃ raising top,
      (session.evaluatingIn context continuation below last grown).advance =
        Session.raise raising failure top below := by
    simp only [evaluatingIn, Session.advance, failed]
    exact ⟨_, _, rfl⟩
  obtain ⟨cause, ended, comes⟩ := comes_of_raise raising failure top below
  refine ⟨_, cause, ended, visited, comes_of_works works ?_⟩
  rw [← turn] at comes
  have first : Comes (.working, session.evaluatingIn context continuation below last grown) _
    _ := .turn rfl comes
  rwa [List.append_nil] at first

theorem comes_of_endless (endless : term.evaluate context.evaluation.chain heap = .endless) :
    ∃ seen after, context.script.Visited [node] seen ∧
      Comes (session.settleStatement (.evaluate node continuation context heap) below) seen
        (.endless, after) := by
  have works := Evaluation.works spelled free context.evaluation.chain heap
  rw [endless] at works
  obtain ⟨seen, last, grown, after, works, stuck, visited⟩ := works
  have turn : (session.evaluatingIn context continuation below last grown).advance =
      (.endless, session.evaluatingIn context continuation below last grown) := by
    simp only [evaluatingIn, Session.advance, stuck]
  have comes : Comes (session.evaluatingIn context continuation below last grown).advance []
      (.endless, session.evaluatingIn context continuation below last grown) := by
    rw [turn]
    exact .endless _
  have first : Comes (.working, session.evaluatingIn context continuation below last grown) _
    _ := .turn rfl comes
  rw [List.append_nil] at first
  exact ⟨_, _, visited, comes_of_works works first⟩

end

end Session

end ScriptEngine
