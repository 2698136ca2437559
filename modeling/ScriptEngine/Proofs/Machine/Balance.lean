import ScriptEngine.Proofs.Control.Scope
import ScriptEngine.Proofs.Evaluation.Balance
import ScriptEngine.Proofs.Machine.Invariant
import ScriptEngine.Proofs.Script.Rooted

/-!
# No run complains about results

In a session that runs scripts whose expressions are present and spell trees, the
pending nodes of every evaluation that is under way fit its results. So no error
is about results that an expression left behind.
-/

set_option autoImplicit false

namespace ScriptEngine

/-- The expressions that a statement is still going to evaluate are present. -/
def Continuation.Rooted (script : Script) : Continuation → Prop
  | .print _ rest => ∀ node ∈ rest, node.index < script.expressions.size
  | .assignMemberOf _ _ value _ => value.index < script.expressions.size
  | .assignElementOf index value _ _ =>
      index.index < script.expressions.size ∧ value.index < script.expressions.size
  | .assignElementAt _ value _ _ => value.index < script.expressions.size
  | .branch _ rest _ _ => ∀ test ∈ rest, test.1.index < script.expressions.size
  | _ => True

/-- What a context is in the middle of has its expressions, and its pending nodes
fit its results. -/
def Activity.Balanced (context : Context) : Activity → Prop
  | .resting => True
  | .evaluating continuation =>
      context.evaluation.Balanced 0 ∧ continuation.Rooted context.script
  | .calling continuation _ _ =>
      context.evaluation.Balanced 1 ∧ continuation.Rooted context.script
  | .declaring _ _ => True

/-- All scripts have their expressions, and all evaluations fit their results. -/
def balance : LocalInvariant where
  FunctionFine function := ∀ script entry, function.body = .script script entry → script.Rooted
  Fine context activity := context.script.Rooted ∧ activity.Balanced context
  ErrorFine := RuntimeCause.Ordinary
  Moves _ _ := True
  Fresh _ := True

namespace Balance

variable {context : Context} {heap : Heap} {frames : List Frame}

private theorem done {after : Context} (heapFine : balance.HeapFine heap)
    (rooted : context.script.Rooted) (kept : context.KeepsScope after) :
    balance.OutcomeFine frames (.done after heap) :=
  ⟨heapFine, ⟨kept.script ▸ rooted, trivial⟩, trivial⟩

private theorem failed {after : Context} {failure : RuntimeError}
    (heapFine : balance.HeapFine heap) (rooted : context.script.Rooted)
    (kept : context.KeepsScope after) (ordinary : failure.cause.Ordinary) :
    balance.OutcomeFine frames (.failed failure after heap) :=
  ⟨heapFine, ⟨kept.script ▸ rooted, trivial⟩, trivial, ordinary⟩

private theorem evaluate {node : ExpressionRef} {continuation : Continuation}
    (heapFine : balance.HeapFine heap) (rooted : context.script.Rooted)
    (present : node.index < context.script.expressions.size)
    (later : continuation.Rooted context.script) :
    balance.OutcomeFine frames (.evaluate node continuation context heap) := by
  obtain ⟨tree, spelled⟩ := rooted.planted node present
  exact ⟨heapFine, ⟨rooted, Evaluation.balanced_begin spelled, later⟩, trivial⟩

private theorem tryBranches {branches : List (ExpressionRef × Option StatementRef)}
    (heapFine : balance.HeapFine heap) (rooted : context.script.Rooted)
    (present : ∀ test ∈ branches, test.1.index < context.script.expressions.size)
    (otherwise : Option (Option StatementRef)) (following : Option StatementRef) :
    balance.OutcomeFine frames (context.tryBranches heap branches otherwise following) := by
  cases branches with
  | nil =>
      cases otherwise with
      | none => exact done heapFine rooted context.keepsScope_proceed
      | some body => exact done heapFine rooted (context.keepsScope_enter body following none none)
  | cons test rest =>
      obtain ⟨first, later⟩ := List.forall_mem_cons.mp present
      exact evaluate heapFine rooted first later

private theorem nextPass (heapFine : balance.HeapFine heap) (rooted : context.script.Rooted)
    (loop : StatementRef) (item : String) (body : Option StatementRef) :
    balance.OutcomeFine frames (context.nextPass heap loop item body) := by
  unfold Context.nextPass
  split
  · exact done (heapFine.of_keeps rfl) rooted
      ((context.keepsScope_setIteration _).trans (Context.keepsScope_enterLoopBody _ loop body))
  · exact done heapFine rooted
      ((context.keepsScope_setIteration _).trans (Context.keepsScope_proceed _))

private theorem beginStatement {this : StatementRef} {statement : Statement}
    (heapFine : balance.HeapFine heap) (rooted : context.script.Rooted)
    (found : context.script.statement? this = some statement) :
    balance.OutcomeFine frames (context.beginStatement heap this statement) := by
  have present := rooted.statements this statement found
  cases statement with
  | expression node => exact evaluate heapFine rooted present trivial
  | print values =>
      cases values with
      | nil => exact done heapFine rooted context.keepsScope_proceed
      | cons first rest =>
          obtain ⟨now, later⟩ := List.forall_mem_cons.mp present
          exact evaluate heapFine rooted now later
  | assign target operator value span =>
      obtain ⟨targetPresent, valuePresent⟩ := present
      cases target with
      | name name => exact evaluate heapFine rooted valuePresent trivial
      | member object name => exact evaluate heapFine rooted targetPresent valuePresent
      | element object index =>
          exact evaluate heapFine rooted targetPresent.1 ⟨targetPresent.2, valuePresent⟩
  | branch branches otherwise => exact tryBranches heapFine rooted present otherwise _
  | whileLoop condition body => exact evaluate heapFine rooted present trivial
  | forLoop item iterable body span =>
      simp only [Context.beginStatement]
      split
      · exact nextPass heapFine rooted this item body
      · exact evaluate heapFine rooted present trivial
  | breakLoops count span =>
      have kept := context.keepsScope_breakOut count
      simp only [Context.beginStatement]
      generalize context.breakOut count = answer at kept
      obtain ⟨answer, after⟩ := answer
      cases answer with
      | ok => exact done heapFine rooted kept
      | error failure => exact failed heapFine rooted kept trivial
  | continueLoop span =>
      have kept := context.keepsScope_nextLoopPass
      simp only [Context.beginStatement]
      generalize context.nextLoopPass = answer at kept
      obtain ⟨answer, after⟩ := answer
      cases answer with
      | ok => exact done heapFine rooted kept
      | error failure => exact failed heapFine rooted kept trivial
  | returnValue value =>
      cases value with
      | none => exact done heapFine rooted (context.keepsScope_returnWith _)
      | some node => exact evaluate heapFine rooted (present node rfl) trivial
  | pass => exact done heapFine rooted context.keepsScope_proceed
  | delete name span =>
      simp only [Context.beginStatement]
      split
      · exact done (heapFine.of_keeps rfl) rooted context.keepsScope_proceed
      · exact failed heapFine rooted (.refl context) trivial
  | define name parameters body =>
      refine done (LocalInvariant.HeapFine.of_keeps (heapFine.newFunction ?_) rfl) rooted
        context.keepsScope_proceed
      rintro script entry ⟨⟩
      exact rooted
  | record name body span =>
      refine ⟨heapFine, ⟨rooted, trivial⟩, trivial, fun members => ⟨⟨?_, trivial⟩, trivial⟩⟩
      rw [(Context.keepsScope_enter _ body none none none).script]
      exact rooted

private theorem deliver {continuation : Continuation} {value : Value}
    (heapFine : balance.HeapFine heap) (rooted : context.script.Rooted)
    (present : continuation.Rooted context.script) :
    balance.OutcomeFine frames (context.deliver heap continuation value) := by
  have proceeded {grown : Heap} (functions : grown.functions = heap.functions) :
      balance.OutcomeFine frames (.done context.proceed grown) :=
    done (heapFine.of_keeps functions) rooted context.keepsScope_proceed
  have refused {cause : RuntimeCause} {span : Span} (ordinary : cause.Ordinary) :
      balance.OutcomeFine frames (.failed (.placed cause span) context heap) :=
    failed heapFine rooted (.refl context) ordinary
  cases continuation with
  | discard => exact proceeded rfl
  | print line rest =>
      cases rest with
      | nil => exact done heapFine rooted context.keepsScope_proceed
      | cons next rest =>
          obtain ⟨now, later⟩ := List.forall_mem_cons.mp present
          exact evaluate heapFine rooted now later
  | assignName name operator span =>
      have ordinary := operator.ordinary_combine heap
        (fun _ => context.evaluation.lookup heap name) value
        (context.evaluation.ordinary_lookup heap name)
      simp only [Context.deliver]
      split
      · next stored grown found =>
          exact proceeded (AssignOperator.keepsObjects_combine found).functions
      · next cause found => exact refused (ordinary cause found)
  | assignMemberOf name operator expression span =>
      simp only [Context.deliver]
      split
      · exact evaluate heapFine rooted present trivial
      · exact refused trivial
  | assignMember object name operator span =>
      simp only [Context.deliver]
      split
      · next stored grown found =>
          exact proceeded (AssignOperator.keepsObjects_combine found).functions
      · next cause found =>
          refine refused (operator.ordinary_combine heap _ value ?_ cause found)
          split
          · exact .ok _
          · exact .error trivial
  | assignElementOf index expression operator span =>
      exact evaluate heapFine rooted present.1 present.2
  | assignElementAt object expression operator span =>
      exact evaluate heapFine rooted present trivial
  | assignElement object index operator span =>
      have ordinary := operator.ordinary_combine heap (fun _ => heap.element object index) value
        (heap.ordinary_element object index)
      simp only [Context.deliver]
      split
      · next stored grown found =>
          have combined := (AssignOperator.keepsObjects_combine found).functions
          have stores := grown.ordinary_setElement object index stored
          split
          · next written stored => exact proceeded ((Heap.functions_setElement stored).trans combined)
          · next cause unwritten =>
              exact failed (heapFine.of_keeps combined) rooted (.refl context)
                (stores cause unwritten)
      · next cause found => exact refused (ordinary cause found)
  | branch body rest otherwise following =>
      simp only [Context.deliver]
      split
      · exact done heapFine rooted (context.keepsScope_enter body following none none)
      · exact tryBranches heapFine rooted present otherwise following
  | whileLoop loop body =>
      simp only [Context.deliver]
      split
      · exact done heapFine rooted (context.keepsScope_enterLoopBody loop body)
      · exact proceeded rfl
  | forLoop loop item body span =>
      have ordinary := Iteration.ordinary_start value
      simp only [Context.deliver]
      split
      · next iteration _ =>
          have kept := context.keepsScope_setIteration (some iteration)
          exact nextPass heapFine (kept.script ▸ rooted) loop item body
      · next cause found => exact refused (ordinary cause found)
  | returnValue => exact done heapFine rooted (context.keepsScope_returnWith value)

/-- No context comes into a state in which its nodes do not fit its results. -/
theorem kept : balance.Kept where
  ordinary ordinary := ordinary
  native {function} isNative script entry body := by
    simp [Function.isNative, body] at isNative
  stays _ := trivial
  abandons {context _ evaluation} fine place := by
    have same : ({ context with evaluation } : Context).script = context.script := place.script
    exact ⟨same ▸ fine.1, trivial⟩
  begins fine _ found heapFine := beginStatement heapFine fine.1 found
  skips {context _} fine _ _ :=
    ⟨⟨context.keepsScope_proceed.script ▸ fine.1, trivial⟩, trivial⟩
  works {context _ heap _ _} fine turn := by
    have balanced := Evaluation.advance_balanced fine.1.planted fine.2.1 heap
    have same := Context.script_of_advance turn
    rw [turn] at balanced
    exact ⟨same ▸ fine.1, balanced, same ▸ fine.2.2⟩
  calls {context _ heap _ _ _ _} fine turn := by
    have balanced := Evaluation.advance_balanced fine.1.planted fine.2.1 heap
    have same := Context.script_of_advance turn
    rw [turn] at balanced
    exact ⟨same ▸ fine.1, balanced, same ▸ fine.2.2⟩
  fails {_ _ heap _ _ _} fine turn := by
    have balanced := Evaluation.advance_balanced fine.1.planted fine.2.1 heap
    rw [turn] at balanced
    exact balanced
  delivers {context _ heap _ _ _} fine turn heapFine := by
    have same := Context.script_of_advance turn
    exact deliver heapFine (same ▸ fine.1) (same ▸ fine.2.2)
  returns {context _ _ _} fine value := by
    refine ⟨fine.1, ?_, fine.2.2⟩
    have balanced := fine.2.1
    simpa [Evaluation.Balanced, Evaluation.pushResult] using balanced
  declares {context _ _} fine :=
    ⟨⟨context.keepsScope_proceed.script ▸ fine.1, trivial⟩, trivial⟩
  runs parsed globals := by
    refine ⟨⟨?_, trivial⟩, trivial⟩
    rw [(Context.keepsScope_enter _ _ none none none).script]
    exact parsed.rooted
  breaks {context} fine count :=
    ⟨⟨(context.keepsScope_breakOut count).script ▸ fine.1, trivial⟩, trivial⟩
  continues {context} fine :=
    ⟨⟨context.keepsScope_nextLoopPass.script ▸ fine.1, trivial⟩, trivial⟩
  resets fine := ⟨⟨fine.1, trivial⟩, trivial⟩
  enters functionFine body locals globals := by
    refine ⟨⟨?_, trivial⟩, trivial⟩
    rw [(Context.keepsScope_enter _ _ none none none).script]
    exact functionFine _ _ body

end Balance

end ScriptEngine
