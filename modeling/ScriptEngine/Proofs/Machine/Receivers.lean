import ScriptEngine.Proofs.Machine.HostEvaluation
import ScriptEngine.Proofs.Recursive.Statement
import ScriptEngine.Proofs.Machine.Lengths
import ScriptEngine.Proofs.Machine.Observed

/-!
# Receivers of calls

A value that a member access finds comes along with the record that it was found in, and a
call of it binds this record to `self`. An `and` or `or` hands on what its right operand gives
as it is, record included; but of a left operand that decides, it keeps the value alone. So a
callee that chooses between member accesses brings a receiver exactly if it was chosen through
right operands only (`Session.chosen_callee_keeps_receiver_of_right_operands`). Chosen through a
left operand the same function runs without one
(`Session.left_operand_loses_receiver`).
-/

set_option autoImplicit false

namespace ScriptEngine

/-- The expression is a member access, or chooses between such expressions by `and` and `or`. -/
def ExpressionTree.IsChoice : ExpressionTree → Prop
  | .member .. => True
  | .shortCircuit _ left right _ => left.IsChoice ∧ right.IsChoice
  | _ => False

/-- One of the two operands of `and` and `or`. -/
inductive Side where
  | left
  | right
deriving DecidableEq, Repr

/-- What a member access found, and the operands through which this access was chosen, the
outermost first. -/
structure Choice where
  holder : Value
  value : Value
  sides : List Side

namespace Choice

/-- The record of the access, unless some left operand was chosen. -/
def receiver (choice : Choice) : Option Value :=
  if .left ∈ choice.sides then none else some choice.holder

def result (choice : Choice) : ScopedResult := ⟨choice.value, choice.receiver⟩

/-- The same choice, made within one operand of a further `and` or `or`. -/
def within (side : Side) (choice : Choice) : Choice :=
  { choice with sides := side :: choice.sides }

theorem result_within_left (choice : Choice) :
    (choice.within .left).result = .plain choice.value := by
  simp [result, within, receiver, ScopedResult.plain]

theorem result_within_right (choice : Choice) : (choice.within .right).result = choice.result := by
  simp [result, within, receiver]

end Choice

namespace ExpressionTree

/-- Evaluates a choice between member accesses, noting which of them is chosen. -/
def choose (call : CallRequest → Effect Value) (chain : ScopeChain) :
    ExpressionTree → Effect Choice
  | .member object identifier nameSpan span => do
      let holder ← object.evaluate call chain
      let value ← Effect.lookupMember holder.value identifier nameSpan span
      return ⟨holder.value, value, []⟩
  | .shortCircuit operator left right _ => do
      let first ← left.choose call chain
      let decided ← Effect.fromHeap fun heap => operator.decides heap first.value
      if decided then return first.within .left
      else
        let second ← right.choose call chain
        return second.within .right
  | _ => Effect.never

/-- Calls what a choice gives, with the receiver that it brings along. -/
def callChosen (call : CallRequest → Effect Value) (chain : ScopeChain) (callee : ExpressionTree)
    (arguments : List ExpressionTree) (span : Span) : Effect Value := do
  let chosen ← callee.choose call chain
  let given ← ExpressionTree.evaluateAll call chain arguments
  Effect.callValue call ⟨chosen.value, chosen.receiver⟩ (given.map ScopedResult.value) span

variable {call : CallRequest → Effect Value} {chain : ScopeChain}

/-- A choice evaluates to what is chosen. -/
theorem evaluate_of_isChoice (tree : ExpressionTree) (choice : tree.IsChoice) :
    tree.evaluate call chain =
      tree.choose call chain >>= fun chosen => Pure.pure chosen.result := by
  cases tree with
  | member object identifier nameSpan span =>
      simp only [evaluate, choose, bind_assoc, pure_bind]
      rfl
  | shortCircuit operator left right span =>
      simp only [evaluate, choose, evaluate_of_isChoice left choice.1,
        evaluate_of_isChoice right choice.2, bind_assoc, pure_bind]
      refine congrArg _ (funext fun chosen => congrArg _ (funext fun decided => ?_))
      cases decided with
      | true => exact congrArg Pure.pure chosen.result_within_left.symm
      | false => simp [Choice.result_within_right]
  | constant | name | unary | binary | element | array | call => exact choice.elim

theorem value_call_of_isChoice {callee : ExpressionTree} (choice : callee.IsChoice)
    (arguments : List ExpressionTree) (span : Span) :
    (ExpressionTree.call callee arguments span).value call chain =
      callee.callChosen call chain arguments span := by
  simp [value, evaluate, callChosen, evaluate_of_isChoice callee choice, Choice.result,
    ScopedResult.plain]

end ExpressionTree

namespace Heap

theorem records_duplicate (heap : Heap) (value : Value) :
    (heap.duplicate value).2.records = heap.records := by
  cases value <;> rfl

theorem record_duplicate (heap : Heap) (value : Value) :
    (heap.duplicate value).2.record = heap.record := by
  cases value <;> rfl

theorem records_size_setMember (heap : Heap) (reference : RecordRef) (name : String)
    (value : Value) : (heap.setMember reference name value).records.size = heap.records.size := by
  simp [setMember, modifyRecord]

theorem bindParameters_cons (heap : Heap) (locals : RecordRef) (parameter : String)
    (parameters : List String) (argument : Value) (arguments : List Value) :
    heap.bindParameters locals (parameter :: parameters) (argument :: arguments) =
      ((heap.duplicate argument).2.setMember locals parameter
        (heap.duplicate argument).1).bindParameters locals parameters arguments := rfl

/-- Binding parameters binds no other name. -/
theorem bindParameters_of_unnamed {key : String} (locals : RecordRef) {parameters : List String}
    (unnamed : key ∉ parameters) (arguments : List Value) {heap : Heap}
    (present : locals.address < heap.records.size) :
    ((heap.bindParameters locals parameters arguments).record locals).get? key =
      (heap.record locals).get? key := by
  induction parameters generalizing arguments heap with
  | nil => rfl
  | cons parameter parameters ih =>
      cases arguments with
      | nil => rfl
      | cons argument arguments =>
          simp only [List.mem_cons, not_or] at unnamed
          obtain ⟨other, others⟩ := unnamed
          have still : locals.address < (heap.duplicate argument).2.records.size := by
            rwa [records_duplicate]
          rw [bindParameters_cons, ih others arguments (by rwa [records_size_setMember]),
            get?_record_setMember _ _ _ _ _ _ still, if_neg (by simp [other]), record_duplicate]

theorem records_size_bindParameters (heap : Heap) (locals : RecordRef) (parameters : List String)
    (arguments : List Value) :
    (heap.bindParameters locals parameters arguments).records.size = heap.records.size := by
  induction parameters generalizing arguments heap with
  | nil => rfl
  | cons parameter parameters ih =>
      cases arguments with
      | nil => rfl
      | cons argument arguments =>
          rw [bindParameters_cons, ih, records_size_setMember, records_duplicate]

end Heap

namespace Session

/-!
## The receiver under its name
-/

section

variable (session : Session) (script : Script) (entry : Option StatementRef)
  (parameters : List String) (globals : Option RecordRef) (arguments : List Value)

theorem names_callContext (receiver : Option Value) :
    (session.callContext script entry parameters globals arguments receiver).1.names =
      (session.heap.newRecord .empty).1 :=
  congrArg ScopeChain.names (Context.keepsScope_enter
    (Context.functionCall script (session.heap.newRecord .empty).1
      (globals.getD session.globals)) entry none none none).place.chain

/-- A call with a receiver finds it under `self` among its own names. -/
theorem self_of_callContext (holder : Value) :
    let opened := session.callContext script entry parameters globals arguments (some holder)
    (opened.2.heap.record opened.1.names).get? selfName = some holder := by
  have fresh : (session.heap.newRecord .empty).1.address <
      (Heap.bindParameters (session.heap.newRecord .empty).2 (session.heap.newRecord .empty).1
        parameters arguments).records.size := by
    rw [Heap.records_size_bindParameters]
    simp [Heap.newRecord]
  dsimp only
  rw [names_callContext]
  simp [callContext, Heap.get?_record_setMember _ _ _ _ _ _ fresh]

/-- A call without a receiver does not bind `self`, unless a parameter has this name. -/
theorem no_self_of_callContext (unnamed : selfName ∉ parameters) :
    let opened := session.callContext script entry parameters globals arguments none
    (opened.2.heap.record opened.1.names).get? selfName = none := by
  have fresh : (session.heap.newRecord .empty).1.address <
      (session.heap.newRecord .empty).2.records.size := by simp [Heap.newRecord]
  dsimp only
  rw [names_callContext]
  simp only [callContext]
  rw [Heap.bindParameters_of_unnamed _ unnamed _ fresh, Heap.record_newRecord, Record.get?_empty]

end

/-- An evaluation that comes to an end does what recursion says, and the other way round. -/
theorem evaluate_iff_value {evaluation : Evaluation} {node : ExpressionRef} {tree : ExpressionTree}
    (spelled : tree.At evaluation.script node) (session : Session) {answer : Answer Value}
    {after : Session} (finished : answer ≠ .unfinished) :
    (∃ turns left, session.evaluate turns evaluation node = (answer, left, after)) ↔
      ∃ turns, tree.value (callWithin turns) evaluation.chain session = (answer, after) := by
  constructor
  · intro ends
    obtain ⟨turns, left, ended⟩ := ends
    exact ⟨turns, (value_of_evaluate spelled ended finished).1⟩
  · intro means
    obtain ⟨turns, meaning⟩ := means
    have said := evaluate_of_value spelled turns session
    rw [meaning] at said
    cases answer with
    | value value =>
        obtain ⟨enough, evaluated⟩ := said
        exact ⟨enough, _, evaluated⟩
    | failed failure => exact said
    | unfinished => exact (finished rfl).elim

/-- A call whose callee chooses between member accesses does the following, whatever the
arguments are and however the call ends: the callee is chosen, the arguments are evaluated, and
what was chosen is called. The receiver of the call is the record of the access that was chosen,
if it was chosen through right operands only; it is missing if there is a left operand that was
chosen, at any depth. A function with a receiver finds it as `self` among its own names; one
without does not find `self` there. -/
theorem chosen_callee_keeps_receiver_of_right_operands {script : Script} {node : ExpressionRef}
    {callee : ExpressionTree} {arguments : List ExpressionTree} {span : Span}
    (spelled : (ExpressionTree.call callee arguments span).At script node)
    (choice : callee.IsChoice) (session : Session) (evaluation : Evaluation)
    (own : evaluation.script = script) :
    (∀ answer after, answer ≠ .unfinished →
      ((∃ turns left, session.evaluate turns evaluation node = (answer, left, after)) ↔
        ∃ turns, callee.callChosen (callWithin turns) evaluation.chain arguments span session =
          (answer, after))) ∧
    (∀ opening body entry parameters globals given holder,
      let opened := callContext opening body entry parameters globals given (some holder)
      (opened.2.heap.record opened.1.names).get? selfName = some holder) ∧
    ∀ opening body entry parameters globals given, selfName ∉ parameters →
      let opened := callContext opening body entry parameters globals given none
      (opened.2.heap.record opened.1.names).get? selfName = none := by
  subst own
  refine ⟨?_, self_of_callContext, ?_⟩
  · intro answer after finished
    simp only [← ExpressionTree.value_call_of_isChoice choice]
    exact evaluate_iff_value spelled session finished
  · intro opening body entry parameters globals given unnamed
    exact no_self_of_callContext opening body entry parameters globals given unnamed

/-- `(r.n or r.m)()` is such a call. -/
theorem choice_of_two_members_keeps_receiver :
    ∃ (script : Script) (node : ExpressionRef) (callee : ExpressionTree) (span : Span),
      (ExpressionTree.call callee [] span).At script node ∧ callee.IsChoice ∧
      ∀ answer after, answer ≠ .unfinished →
        ((∃ turns left, (Session.new none).evaluate turns (Evaluation.new script ⟨⟨0⟩, []⟩) node =
            (answer, left, after)) ↔
          ∃ turns, callee.callChosen (callWithin turns) ⟨⟨0⟩, []⟩ [] span (Session.new none) =
            (answer, after)) := by
  have spelled : (ExpressionTree.call
      (.shortCircuit .or (.member (.name "r" ⟨1, 1⟩) "n" ⟨3, 1⟩ ⟨1, 3⟩)
        (.member (.name "r" ⟨8, 1⟩) "m" ⟨10, 1⟩ ⟨8, 3⟩) ⟨1, 10⟩) [] ⟨0, 14⟩).At
      ⟨#[], #[.name "r" ⟨1, 1⟩, .name "n" ⟨3, 1⟩, .member ⟨0⟩ ⟨1⟩ ⟨1, 3⟩, .name "r" ⟨8, 1⟩,
        .name "m" ⟨10, 1⟩, .member ⟨3⟩ ⟨4⟩ ⟨8, 3⟩, .shortCircuit .or ⟨2⟩ ⟨5⟩ ⟨1, 10⟩,
        .call ⟨6⟩ [] ⟨0, 14⟩], none⟩ ⟨7⟩ :=
    ⟨⟨6⟩, [], rfl, ⟨by decide, ⟨2⟩, ⟨5⟩, rfl,
      ⟨by decide, ⟨0⟩, ⟨1⟩, rfl, ⟨by decide, rfl⟩, by decide, rfl⟩,
      by decide, ⟨3⟩, ⟨4⟩, rfl, ⟨by decide, rfl⟩, by decide, rfl⟩, trivial⟩
  exact ⟨_, _, _, _, spelled, ⟨trivial, trivial⟩,
    (chosen_callee_keeps_receiver_of_right_operands spelled ⟨trivial, trivial⟩ (Session.new none)
      (Evaluation.new _ ⟨⟨0⟩, []⟩) rfl).1⟩

/-- The function is chosen once as a right operand and once as a left one. -/
theorem left_operand_loses_receiver :
    ∃ script started after,
      Script.ofSource "self = 0\nrecord r\nn = 0\ndef m()\nreturn self == r\nend\nend
print (r.n or r.m)()\nprint (r.m or r.n)()\n" = .ok script ∧
      (Session.new none).run script = .ok started ∧
      execute 200 started = (.value (), after) ∧ after.output = "True\nFalse\n" := by
  have passed : ((Script.ofSource "self = 0\nrecord r\nn = 0\ndef m()\nreturn self == r\nend\nend
print (r.n or r.m)()\nprint (r.m or r.n)()\n"
      ).toOption.any fun script =>
        ((Session.new none).run script).toOption.any fun started =>
          returns (execute 200 started) fun _ after => after.output == "True\nFalse\n") =
      true := by decide +kernel
  obtain ⟨script, started, accepted, begun, passed⟩ := eq_of_runs passed
  obtain ⟨_, after, ended, output⟩ := eq_of_returns passed
  exact ⟨script, started, after, accepted, begun, ended, eq_of_beq output⟩

end Session

end ScriptEngine
