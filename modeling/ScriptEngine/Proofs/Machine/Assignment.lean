import ScriptEngine.Proofs.Machine.Term
import ScriptEngine.Proofs.Recursive.Assignment

/-!
# Executing assignments

The turns of an assignment without calls do to the heap what its term says, and they evaluate
the operands of the target and the value once (`Session.executes_assign`). So it makes no
difference whether a statement adds to its target or assigns the sum, as long as every
comparison in it comes to an end (`Session.compound_assignment_desugars`). Where one does not,
the statement that adds can go on forever while the other one fails
(`Session.compound_assignment_never_ends`).
-/

set_option autoImplicit false

namespace ScriptEngine

/-- The expressions that are evaluated to find out where the target is. -/
def AssignTarget.operands : AssignTarget → List ExpressionRef
  | .name _ => []
  | .member object _ => [object]
  | .element object index => [object, index]

/-- The assignment to a location waits for its value. -/
def Location.continuation (operator : AssignOperator) (span : Span) : Location → Continuation
  | .name identifier => .assignName identifier operator span
  | .member record identifier => .assignMember record identifier operator span
  | .element object index => .assignElement object index operator span

/-- The context with another script. -/
def Context.over (context : Context) (script : Script) : Context :=
  { context with evaluation := { context.evaluation with script } }

/-- The context between two statements of a script, inside of these frames. -/
def Context.between (context : Context) (script : Script) (frames : List Frame) : Context :=
  { context with frames, evaluation := .new script context.evaluation.chain }

/-- The statement assigns the value to the target, with this operator. -/
structure Script.Assigns (script : Script) (this : StatementRef) (target : TargetTerm)
    (operator : AssignOperator) (value : Term) (written : AssignTarget) (node : ExpressionRef) :
    Prop where
  found : ∃ span, script.statement? this = some (.assign written operator node span)
  target : target.At script written
  value : value.At script node

theorem Term.At.exists_visits {script : Script} {term : Term} {node : ExpressionRef}
    (spelled : term.At script node) : ∃ seen, script.Visits node seen := by
  obtain ⟨tree, treeAt, _⟩ := spelled
  exact treeAt.exists_visits

theorem TargetTerm.At.exists_visits {script : Script} {target : TargetTerm}
    {written : AssignTarget} (spelled : target.At script written) :
    ∃ seen, script.VisitsAll written.operands seen := by
  cases target with
  | name identifier =>
      cases spelled
      exact ⟨[], .nil⟩
  | member object identifier =>
      obtain ⟨inner, rfl, objectAt⟩ := spelled
      obtain ⟨seen, visits⟩ := objectAt.exists_visits
      exact ⟨seen, Script.visitsAll_singleton.mpr visits⟩
  | element object index =>
      obtain ⟨inner, position, rfl, objectAt, indexAt⟩ := spelled
      obtain ⟨seen, visits⟩ := objectAt.exists_visits
      obtain ⟨later, visitsLater⟩ := indexAt.exists_visits
      exact ⟨_, .cons visits (Script.visitsAll_singleton.mpr visitsLater)⟩

namespace Session

/-- What the turns come to is what has been done to the heap: they evaluate the nodes once and go
on behind the statement, or on the way they fail or one of them goes on forever. -/
def Executes (script : Script) (nodes : List ExpressionRef) (start : Progress × Session)
    (done : Heap → Session) : Outcome (Unit × Heap) → Prop
  | .value (_, heap) =>
      ∃ seen, script.VisitsAll nodes seen ∧ Comes start seen (.working, done heap)
  | .failed =>
      ∃ seen failure after, script.Visited nodes seen ∧ Comes start seen (.failed failure, after)
  | .endless =>
      ∃ seen after, script.Visited nodes seen ∧ Comes start seen (.endless, after)

/-- The session after the statement. -/
def settled (session : Session) (context : Context) (below : List Activation) (heap : Heap) :
    Session :=
  { session with heap, stack := ⟨context.fresh.proceed, .resting⟩ :: below }

variable {session : Session} {context : Context} {below : List Activation}

theorem executes_evaluate {term : Term} {node : ExpressionRef}
    (spelled : term.At context.script node) (free : term.CallFree) {heap : Heap}
    {continuation : Continuation} {nodes : List ExpressionRef} {done : Heap → Session}
    {following : Value → HeapAction Unit}
    (exist : ∃ whole, context.script.VisitsAll nodes whole)
    (rest : ∀ value grown, Executes context.script nodes
      (session.settleStatement (context.fresh.deliver grown continuation value) below) done
      (following value grown)) :
    Executes context.script (node :: nodes)
      (session.settleStatement (.evaluate node continuation context heap) below) done
      ((term.evaluate context.evaluation.chain >>= following) heap) := by
  cases given : term.evaluate context.evaluation.chain heap with
  | failed =>
      rw [HeapAction.bind_of_failed given]
      obtain ⟨seen, failure, after, visited, comes⟩ := comes_of_failed spelled free given
      obtain ⟨whole, visits⟩ := exist
      exact ⟨seen, failure, after, visited.before visits, comes⟩
  | endless =>
      rw [HeapAction.bind_of_endless given]
      obtain ⟨seen, after, visited, comes⟩ := comes_of_endless spelled free given
      obtain ⟨whole, visits⟩ := exist
      exact ⟨seen, after, visited.before visits, comes⟩
  | value answer =>
      obtain ⟨value, grown⟩ := answer
      rw [HeapAction.bind_of_value given]
      obtain ⟨seen, visits, comes⟩ := comes_of_value spelled free given
      have last := rest value grown
      generalize following value grown = ended at last
      cases ended with
      | failed =>
          obtain ⟨later, failure, after, visited, failed⟩ := last
          exact ⟨seen ++ later, failure, after,
            .behind (Script.visitsAll_singleton.mpr visits) visited, comes _ _ failed⟩
      | endless =>
          obtain ⟨later, after, visited, stuck⟩ := last
          exact ⟨seen ++ later, after,
            .behind (Script.visitsAll_singleton.mpr visits) visited, comes _ _ stuck⟩
      | value ended =>
          obtain ⟨later, visitsLater, ends⟩ := last
          exact ⟨seen ++ later, .cons visits visitsLater, comes _ _ ends⟩

theorem executes_of_failed {script : Script} {nodes : List ExpressionRef}
    (exist : ∃ whole, script.VisitsAll nodes whole) (failure : RuntimeError) (left : Context)
    (heap : Heap) (done : Heap → Session) :
    Executes script nodes (session.settleStatement (.failed failure left heap) below) done
      .failed := by
  obtain ⟨whole, visits⟩ := exist
  obtain ⟨cause, after, comes⟩ :=
    comes_of_raise { session with heap } failure ⟨left, .resting⟩ below
  exact ⟨[], cause, after, ⟨whole, visits, List.nil_prefix⟩, comes⟩

theorem executes_of_done {script : Script} (heap : Heap) :
    Executes script [] (session.settleStatement (.done context.fresh.proceed heap) below)
      (session.settled context below) (.value ((), heap)) :=
  ⟨[], .nil, .ended rfl⟩

/-- When the statement has its value, it looks up what the location holds, and stores. -/
theorem deliver_continuation (location : Location) (operator : AssignOperator) (span : Span)
    (heap : Heap) (given : Value) :
    context.fresh.deliver heap (location.continuation operator span) given =
      match operator.combine heap
        (fun _ => location.read context.evaluation.chain heap) given with
      | .ok (stored, grown) =>
          match location.write context.evaluation.chain grown stored with
          | .ok last => .done context.fresh.proceed last
          | .error cause => .failed (.placed cause span) context.fresh grown
      | .error cause => .failed (.placed cause span) context.fresh heap := by
  cases location <;> rfl

theorem executes_store (location : Location) (operator : AssignOperator) (span : Span)
    (heap : Heap) (given : Value) :
    Executes context.script []
      (session.settleStatement
        (context.fresh.deliver heap (location.continuation operator span) given) below)
      (session.settled context below)
      (location.receive context.evaluation.chain operator given heap) := by
  have nothing : ∃ whole, context.script.VisitsAll [] whole := ⟨[], .nil⟩
  rw [deliver_continuation]
  simp only [Location.receive, Bind.bind, StateT.bind, Location.store, HeapAction.attempt,
    HeapAction.compute]
  cases operator.combine heap (fun _ => location.read context.evaluation.chain heap) given with
  | error cause => exact executes_of_failed nothing _ _ _ _
  | ok answer =>
      obtain ⟨stored, grown⟩ := answer
      dsimp only [Outcome.bind]
      cases location.write context.evaluation.chain grown stored with
      | error cause => exact executes_of_failed nothing _ _ _ _
      | ok last => exact executes_of_done last

section

variable {value : Term} {node : ExpressionRef} (valueAt : value.At context.script node)
  (valueFree : value.CallFree)

include valueAt valueFree

theorem executes_value (location : Location) (operator : AssignOperator) (span : Span)
    (heap : Heap) :
    Executes context.script [node]
      (session.settleStatement
        (.evaluate node (location.continuation operator span) context heap) below)
      (session.settled context below)
      ((value.evaluate context.evaluation.chain >>=
        location.receive context.evaluation.chain operator) heap) :=
  executes_evaluate valueAt valueFree ⟨[], .nil⟩ fun given grown =>
    executes_store location operator span grown given

theorem executes_assign {target : TargetTerm} {written : AssignTarget}
    (targetAt : target.At context.script written) (targetFree : target.CallFree)
    (operator : AssignOperator) (span : Span) (heap : Heap) (this : StatementRef) :
    Executes context.script (written.operands ++ [node])
      (session.settleStatement
        (context.beginStatement heap this (.assign written operator node span)) below)
      (session.settled context below)
      (target.assign context.evaluation.chain operator value heap) := by
  obtain ⟨valueVisited, visits⟩ := valueAt.exists_visits
  have exist : ∃ whole, context.script.VisitsAll [node] whole :=
    ⟨valueVisited, Script.visitsAll_singleton.mpr visits⟩
  cases target with
  | name identifier =>
      cases targetAt
      exact executes_value valueAt valueFree (.name identifier) operator span heap
  | member object identifier =>
      obtain ⟨inner, rfl, objectAt⟩ := targetAt
      simp only [TargetTerm.assign, TargetTerm.locate, bind_assoc]
      refine executes_evaluate objectAt targetFree exist fun holder grown => ?_
      simp only [Context.deliver]
      cases holder.recordRef? with
      | none => exact executes_of_failed exist _ _ _ _
      | some record =>
          exact executes_value valueAt valueFree (.member record identifier) operator span grown
  | element object index =>
      obtain ⟨inner, position, rfl, objectAt, indexAt⟩ := targetAt
      obtain ⟨objectFree, indexFree⟩ := targetFree
      obtain ⟨indexVisited, indexVisits⟩ := indexAt.exists_visits
      have existBoth : ∃ whole, context.script.VisitsAll [position, node] whole :=
        ⟨_, .cons indexVisits (Script.visitsAll_singleton.mpr visits)⟩
      simp only [TargetTerm.assign, TargetTerm.locate, bind_assoc, pure_bind]
      refine executes_evaluate objectAt objectFree existBoth fun holder grown => ?_
      exact executes_evaluate indexAt indexFree exist fun index last =>
        executes_value valueAt valueFree (.element holder index) operator span last

end

/-!
## The two statements
-/

variable {this : StatementRef} {operator : AssignOperator} {binary : BinaryOperator}
  {target : TargetTerm} {value : Term} {written otherWritten : AssignTarget}
  {node otherNode : ExpressionRef}

/-- What is done by the statement that comes next, unless there is no time for it. -/
def inTime (session : Session) (result : Outcome (Unit × Heap)) : Outcome (Unit × Heap) :=
  match ({ session with now := session.now + 1 } : Session).isOverdue with
  | some _ => .failed
  | none => result

/-- The turns of a statement do what its term says. -/
theorem executes_statement (stack : session.stack = ⟨context, .resting⟩ :: below)
    (current : context.current = some this)
    (assigns : context.script.Assigns this target operator value written node)
    (targetFree : target.CallFree) (valueFree : value.CallFree) :
    Executes context.script (written.operands ++ [node]) session.advance
      ({ session with now := session.now + 1 }.settled context below)
      (session.inTime (target.assign context.evaluation.chain operator value session.heap)) := by
  unfold inTime
  obtain ⟨⟨span, found⟩, targetAt, valueAt⟩ := assigns
  cases overdue : ({ session with now := session.now + 1 } : Session).isOverdue with
  | some limit =>
      obtain ⟨targetVisited, targetVisits⟩ := targetAt.exists_visits
      obtain ⟨valueVisited, valueVisits⟩ := valueAt.exists_visits
      obtain ⟨cause, after, comes⟩ := comes_of_raise { session with now := session.now + 1 }
        (.unplaced (.timeLimit limit)) ⟨context, .resting⟩ below
      rw [advance_of_overdue stack overdue]
      exact ⟨[], cause, after, ⟨_, targetVisits.append (Script.visitsAll_singleton.mpr valueVisits),
        List.nil_prefix⟩, comes⟩
  | none =>
      rw [advance_of_begin stack current found overdue]
      exact executes_assign valueAt valueFree targetAt targetFree operator span session.heap this

/-- The frames after a statement depend on the script only through the statement that follows. -/
theorem exists_frames_proceed (current : context.current = some this) {script : Script}
    (next : script.next this = context.script.next this) :
    ∃ frames, context.fresh.proceed = context.between context.script frames ∧
      (context.over script).fresh.proceed = context.between script frames := by
  have one : context.fresh.current = some this := current
  have other : (context.over script).fresh.current = some this := current
  simp only [Context.proceed, one, other, Option.bind_some]
  have following : (context.over script).fresh.script.next this = context.fresh.script.next this :=
    next
  rw [following]
  have sameFrames : (context.over script).fresh.frames = context.fresh.frames := rfl
  rw [sameFrames]
  generalize Frame.leaveFinished _ context.fresh.frames = left
  obtain ⟨head, frames⟩ := left
  cases frames with
  | nil => exact ⟨_, rfl, rfl⟩
  | cons frame rest => exact ⟨_, rfl, rfl⟩

/-- The statement fails in both scripts, or it succeeds in both, or it goes on forever in both. If
it succeeds then it has left the same frames, and heaps that are the same up to the names of new
arrays; the output, the records of names and all the rest of the session is as it was before. -/
def EndsAlike (session : Session) (context : Context) (script : Script) (below : List Activation)
    (answer other : Progress × Session) : Prop :=
  (∃ failure after otherFailure otherAfter, answer = (.failed failure, after) ∧
    other = (.failed otherFailure, otherAfter)) ∨
  (∃ after otherAfter, answer = (.endless, after) ∧ other = (.endless, otherAfter)) ∨
  ∃ frames heap otherHeap,
    answer = (.working, { session with
      heap, now := session.now + 1
      stack := ⟨context.between context.script frames, .resting⟩ :: below }) ∧
    other = (.working, { session with
      heap := otherHeap, now := session.now + 1
      stack := ⟨context.between script frames, .resting⟩ :: below }) ∧
    session.heap.SameUpToNew heap otherHeap

/-- Let two sessions differ in one statement only: the one adds to its target or subtracts from
it, the other assigns the sum or the difference. The expressions contain no calls. Then both
statements end alike, but for one case: if the target holds nothing, and its value compares
arrays forever, then the statement that adds goes on forever and the other one fails. The
statement that adds evaluates the operands of its target and its value once, from left to right,
and if it does not succeed then it has got to some place in this order. -/
theorem compound_assignment_desugars (stack : session.stack = ⟨context, .resting⟩ :: below)
    (closed : session.heap.Closed) (current : context.current = some this)
    (combines : operator.binary? = some binary) (targetFree : target.CallFree)
    (valueFree : value.CallFree)
    (assigns : context.script.Assigns this target operator value written node) {script : Script}
    (next : script.next this = context.script.next this)
    (expanded : script.Assigns this target .set (.middle (.binary binary) target.read value)
      otherWritten otherNode) :
    ∃ seen answer otherSeen other, Comes session.advance seen answer ∧
      Comes ({ session with stack := ⟨context.over script, .resting⟩ :: below } : Session).advance
        otherSeen other ∧
      context.script.Visited (written.operands ++ [node]) seen ∧
      (answer.1 = .working → context.script.VisitsAll (written.operands ++ [node]) seen) ∧
      (session.EndsAlike context script below answer other ∨
        (∃ after, answer = (.endless, after)) ∧
          (∃ failure otherAfter, other = (.failed failure, otherAfter)) ∧
          target.NeverMissed context.evaluation.chain value session.heap) := by
  have one := executes_statement stack current assigns targetFree valueFree
  have otherCurrent : (context.over script).current = some this := current
  have otherAssigns : (context.over script).script.Assigns this target .set
    (.middle (.binary binary) target.read value) otherWritten otherNode := expanded
  have valueExpandedFree : (Term.middle (.binary binary) target.read value).CallFree :=
    ⟨targetFree, valueFree⟩
  have other : Executes script (otherWritten.operands ++ [otherNode])
      ({ session with stack := ⟨context.over script, .resting⟩ :: below } : Session).advance
      ({ session with now := session.now + 1 }.settled (context.over script) below)
      (session.inTime (target.assign context.evaluation.chain .set
        (.middle (.binary binary) target.read value) session.heap)) :=
    executes_statement rfl otherCurrent otherAssigns targetFree valueExpandedFree
  have related : Outcome.Rel (fun left₁ left₂ => session.heap.SameUpToNew left₁.2 left₂.2)
        (session.inTime (target.assign context.evaluation.chain operator value session.heap))
        (session.inTime (target.assign context.evaluation.chain .set
          (.middle (.binary binary) target.read value) session.heap)) ∨
      session.inTime (target.assign context.evaluation.chain operator value session.heap) =
          .endless ∧
        session.inTime (target.assign context.evaluation.chain .set
          (.middle (.binary binary) target.read value) session.heap) = .failed ∧
        target.NeverMissed context.evaluation.chain value session.heap := by
    unfold inTime
    cases ({ session with now := session.now + 1 } : Session).isOverdue with
    | some limit => exact .inl .failed
    | none => exact TargetTerm.assign_expanded closed targetFree valueFree combines
  generalize session.inTime _ = left₁ at one related
  generalize session.inTime _ = left₂ at other related
  obtain related | ⟨rfl, rfl, missed⟩ := related
  case inr =>
    obtain ⟨seen, after, visited, comes⟩ := one
    obtain ⟨otherSeen, otherFailure, otherAfter, _, otherComes⟩ := other
    exact ⟨seen, _, otherSeen, _, comes, otherComes, visited, fun working => (by cases working),
      .inr ⟨⟨_, rfl⟩, ⟨_, _, rfl⟩, missed⟩⟩
  cases related with
  | failed =>
      obtain ⟨seen, failure, after, visited, comes⟩ := one
      obtain ⟨otherSeen, otherFailure, otherAfter, _, otherComes⟩ := other
      exact ⟨seen, _, otherSeen, _, comes, otherComes, visited, fun working => (by cases working),
        .inl (.inl ⟨_, _, _, _, rfl, rfl⟩)⟩
  | endless =>
      obtain ⟨seen, after, visited, comes⟩ := one
      obtain ⟨otherSeen, otherAfter, _, otherComes⟩ := other
      exact ⟨seen, _, otherSeen, _, comes, otherComes, visited, fun working => (by cases working),
        .inl (.inr (.inl ⟨_, _, rfl, rfl⟩))⟩
  | @value left₁ left₂ same =>
      obtain ⟨_, heap⟩ := left₁
      obtain ⟨_, otherHeap⟩ := left₂
      obtain ⟨seen, visits, comes⟩ := one
      obtain ⟨otherSeen, _, otherComes⟩ := other
      obtain ⟨frames, proceeds, otherProceeds⟩ := exists_frames_proceed current next
      rw [settled, proceeds] at comes
      rw [settled, otherProceeds] at otherComes
      exact ⟨seen, _, otherSeen, _, comes, otherComes, ⟨seen, visits, List.prefix_rfl⟩,
        fun _ => visits, .inl (.inr (.inr ⟨frames, heap, otherHeap, rfl, rfl, same⟩))⟩

/-- `r.m += ["b"]` is such a statement, and `r.m = r.m + ["b"]` assigns the sum. -/
theorem compound_assignment_of_member_desugars :
    ∃ (script expanded : Script) (started : Session) (context : Context),
      Script.ofSource "record r\nm = [\"a\"]\nend\nr.m += [\"b\"]\n" = .ok script ∧
      Script.ofSource "record r\nm = [\"a\"]\nend\nr.m = r.m + [\"b\"]\n" = .ok expanded ∧
      (Session.new none).run script = .ok started ∧
      (started.turnsFrom 6).stack = [⟨context, .resting⟩] ∧ (started.turnsFrom 6).heap.Closed ∧
      context.current = some ⟨2⟩ ∧
      context.script.Assigns ⟨2⟩ (.member (.name "r") "m") .add (.array [.constant (.text "b")])
        (.member ⟨3⟩ "m") ⟨7⟩ ∧
      expanded.Assigns ⟨2⟩ (.member (.name "r") "m") .set
        (.middle (.binary .add) (.member (.name "r") "m") (.array [.constant (.text "b")]))
        (.member ⟨3⟩ "m") ⟨11⟩ ∧
      expanded.next ⟨2⟩ = context.script.next ⟨2⟩ ∧
      ∃ seen answer otherSeen other, Comes (started.turnsFrom 6).advance seen answer ∧
        Comes ({ started.turnsFrom 6 with
          stack := [⟨context.over expanded, .resting⟩] } : Session).advance otherSeen other ∧
        context.script.Visited [⟨3⟩, ⟨7⟩] seen ∧
        (answer.1 = .working → context.script.VisitsAll [⟨3⟩, ⟨7⟩] seen) ∧
        ((started.turnsFrom 6).EndsAlike context expanded [] answer other ∨
          (∃ after, answer = (.endless, after)) ∧
            (∃ failure otherAfter, other = (.failed failure, otherAfter)) ∧
            (TargetTerm.member (.name "r") "m").NeverMissed context.evaluation.chain
              (.array [.constant (.text "b")]) (started.turnsFrom 6).heap) := by
  have accepted : Script.ofSource "record r\nm = [\"a\"]\nend\nr.m += [\"b\"]\n" = .ok
      ⟨#[⟨.assign (.name "m") .set ⟨2⟩ ⟨9, 9⟩, none⟩, ⟨.record "r" (some ⟨0⟩) ⟨0, 8⟩, some ⟨2⟩⟩,
          ⟨.assign (.member ⟨3⟩ "m") .add ⟨7⟩ ⟨23, 12⟩, none⟩],
        #[.name "m" ⟨9, 1⟩, .constant (.text "a") ⟨14, 3⟩, .array [⟨1⟩] ⟨13, 5⟩, .name "r" ⟨23, 1⟩,
          .name "m" ⟨25, 1⟩, .member ⟨3⟩ ⟨4⟩ ⟨23, 3⟩, .constant (.text "b") ⟨31, 3⟩,
          .array [⟨6⟩] ⟨30, 5⟩],
        some ⟨1⟩⟩ := by cbv
  have otherAccepted : Script.ofSource "record r\nm = [\"a\"]\nend\nr.m = r.m + [\"b\"]\n" = .ok
      ⟨#[⟨.assign (.name "m") .set ⟨2⟩ ⟨9, 9⟩, none⟩, ⟨.record "r" (some ⟨0⟩) ⟨0, 8⟩, some ⟨2⟩⟩,
          ⟨.assign (.member ⟨3⟩ "m") .set ⟨11⟩ ⟨23, 17⟩, none⟩],
        #[.name "m" ⟨9, 1⟩, .constant (.text "a") ⟨14, 3⟩, .array [⟨1⟩] ⟨13, 5⟩, .name "r" ⟨23, 1⟩,
          .name "m" ⟨25, 1⟩, .member ⟨3⟩ ⟨4⟩ ⟨23, 3⟩, .name "r" ⟨29, 1⟩, .name "m" ⟨31, 1⟩,
          .member ⟨6⟩ ⟨7⟩ ⟨29, 3⟩, .constant (.text "b") ⟨36, 3⟩, .array [⟨9⟩] ⟨35, 5⟩,
          .binary .add ⟨8⟩ ⟨10⟩ ⟨29, 11⟩],
        some ⟨1⟩⟩ := by cbv
  generalize isScript : Script.mk _ _ _ = script at accepted
  generalize isExpanded : Script.mk _ _ _ = expanded at otherAccepted
  generalize isContext : Context.mk .base (.new script ⟨⟨0⟩, []⟩)
    [⟨some ⟨2⟩, none, none, none, none⟩] false none = context
  obtain ⟨started, begun, stack⟩ : ∃ started, (Session.new none).run script = .ok started ∧
      (started.turnsFrom 6).stack = [⟨context, .resting⟩] := by
    subst isContext isScript
    exact ⟨_, rfl, by cbv⟩
  have tidy : (started.turnsFrom 6).Tidy :=
    ((Tidy.new none).run (Script.parsed_ofSource accepted) begun).turns 6
  have current : context.current = some ⟨2⟩ := by rw [← isContext]; rfl
  have assigns : context.script.Assigns ⟨2⟩ (.member (.name "r") "m") .add
      (.array [.constant (.text "b")]) (.member ⟨3⟩ "m") ⟨7⟩ := by
    subst isContext isScript
    exact ⟨⟨_, rfl⟩, ⟨⟨3⟩, rfl, .name "r" ⟨23, 1⟩, rfl, rfl⟩,
      .array [.constant (.text "b") ⟨31, 3⟩] ⟨30, 5⟩, ⟨_, rfl, ⟨by decide, rfl⟩, trivial⟩, rfl⟩
  have expands : expanded.Assigns ⟨2⟩ (.member (.name "r") "m") .set
      (.middle (.binary .add) (.member (.name "r") "m") (.array [.constant (.text "b")]))
      (.member ⟨3⟩ "m") ⟨11⟩ := by
    subst isExpanded
    exact ⟨⟨_, rfl⟩, ⟨⟨3⟩, rfl, .name "r" ⟨23, 1⟩, rfl, rfl⟩,
      .binary .add (.member (.name "r" ⟨29, 1⟩) "m" ⟨31, 1⟩ ⟨29, 3⟩)
        (.array [.constant (.text "b") ⟨36, 3⟩] ⟨35, 5⟩) ⟨29, 11⟩,
      ⟨⟨8⟩, ⟨10⟩, rfl,
        ⟨by decide, ⟨6⟩, ⟨7⟩, rfl, ⟨by decide, rfl⟩, by decide, rfl⟩,
        by decide, [⟨9⟩], rfl, ⟨by decide, rfl⟩, trivial⟩, rfl⟩
  have targetFree : (TargetTerm.member (.name "r") "m").CallFree := trivial
  have valueFree : (Term.array [.constant (.text "b")]).CallFree := ⟨trivial, trivial⟩
  have next : expanded.next ⟨2⟩ = context.script.next ⟨2⟩ := by
    subst isExpanded isContext isScript
    rfl
  exact ⟨script, expanded, started, context, accepted, otherAccepted, begun, stack,
    tidy.present.heap, current, assigns, expands, next,
    compound_assignment_desugars stack tidy.present.heap current rfl targetFree valueFree assigns
      next expands⟩

/-- Both scripts make an array whose item leads back to it, and compare the two. The comparison
never ends. The one script adds its answer to a name that does not exist, and so goes on forever;
the other assigns the sum, and fails before it comes to the comparison. -/
theorem compound_assignment_never_ends :
    ∃ script expanded started otherStarted failure after,
      Script.ofSource "a = [[0]]\na[0][0] = a\nx += (a == a[0])\n" = .ok script ∧
      Script.ofSource "a = [[0]]\na[0][0] = a\nx = x + (a == a[0])\n" = .ok expanded ∧
      (Session.new none).run script = .ok started ∧
      (Session.new none).run expanded = .ok otherStarted ∧
      (∀ turns, (execute turns started).1 = .unfinished) ∧
      execute 100 otherStarted = (.failed failure, after) ∧
      failure.span = some ⟨26, 1⟩ := by
  have hanging : ((Script.ofSource "a = [[0]]\na[0][0] = a\nx += (a == a[0])\n"
      ).toOption.any fun script =>
        ((Session.new none).run script).toOption.any fun started => hangs 100 started) = true := by
    decide +kernel
  have passed : ((Script.ofSource "a = [[0]]\na[0][0] = a\nx = x + (a == a[0])\n"
      ).toOption.any fun script =>
        ((Session.new none).run script).toOption.any fun started =>
          failsIn (execute 100 started) ⟨26, 1⟩) = true := by decide +kernel
  obtain ⟨script, started, accepted, begun, hanging⟩ := eq_of_runs hanging
  obtain ⟨expanded, otherStarted, otherAccepted, otherBegun, passed⟩ := eq_of_runs passed
  obtain ⟨failure, after, failed, place⟩ := eq_of_failsIn passed
  exact ⟨script, expanded, started, otherStarted, failure, after, accepted, otherAccepted, begun,
    otherBegun, unfinished_of_hangs hanging, failed, place⟩

end Session

end ScriptEngine
