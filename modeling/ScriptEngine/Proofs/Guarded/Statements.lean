import ScriptEngine.Proofs.Guarded.Expressions

/-!
# Statements with guards

The guarded productions for statements follow those of the parser. A statement and a block
take a token before they answer. What may be empty, the further branches of a compound and
a sequence, goes on only behind a token that has been taken.
-/

set_option autoImplicit false

namespace ScriptEngine

namespace Follows

variable {course : Course} {calls : List (Production × Nat)} {head : Option Token}
  {size bound other : Nat} {production : Production}

theorem atTerminator :
    Follows course calls head (fun _ => True) size (size + 1) Guarded.atTerminator
      Parse.atTerminator :=
  peek_bind fun _ _ _ => pure trivial (Nat.lt_succ_self size)

theorem terminator :
    Follows course calls head (fun _ => True) size (size + 1) Guarded.terminator
      Parse.terminator := by
  refine peek_bind fun token scanned _ => ?_
  have taken (inner : token.kind ≠ .endOfSource) :
      Follows course calls (some token) (fun _ => True) size (size + 1)
        (do
          let _ ← Guarded.next
          return ())
        Parse.skip := by
    rw [← bind_pure_unit (x := Parse.skip)]
    exact skip_bind inner fun _ fewer => pure trivial (by omega)
  have within := scanned.within
  cases kindIs : token.kind
  case newline | semicolon =>
    refine taken ?_
    rw [kindIs]
    decide
  case endOfSource => exact pure trivial (Nat.lt_succ_self size)
  all_goals exact refuse _ within

private theorem printedRest (ready : Ready course calls size .printedRest bound other) :
    Follows course calls head (fun _ => True) size (size + 1) (Guarded.printedRest bound)
      (Parse.printedRest other) := by
  induction bound generalizing other calls head size with
  | zero => exact absurd ready.deep (Nat.not_lt_zero _)
  | succ bound ih =>
      cases other with
      | zero => exact absurd ready.plain (Nat.not_lt_zero _)
      | succ other =>
          rw [Guarded.printedRest, Parse.printedRest]
          refine ready.enter fun _ inside => accept_bind (by decide) (fun _ left fewer => ?_) ?_
          · refine (expression (inside.later fewer)).bind fun value _ left nearer => ?_
            refine (ih (inside.later (by omega))).bind fun rest _ left nearest => ?_
            exact pure trivial (by omega)
          · exact pure trivial (Nat.lt_succ_self size)

private theorem parameters (ready : Ready course calls size .parameters bound other) :
    Follows course calls head (fun _ => True) size size (Guarded.parameters bound)
      (Parse.parameters other) := by
  induction bound generalizing other calls head size with
  | zero => exact absurd ready.deep (Nat.not_lt_zero _)
  | succ bound ih =>
      cases other with
      | zero => exact absurd ready.plain (Nat.not_lt_zero _)
      | succ other =>
          rw [Guarded.parameters, Parse.parameters]
          refine ready.enter fun _ inside => accept_bind (by decide) (fun _ left fewer => ?_) ?_
          · exact pure trivial fewer
          · refine name.bind fun named _ left fewer => ?_
            refine accept_bind (by decide) (fun _ left nearer => ?_) ?_
            · refine (ih (inside.later (by omega))).bind fun rest _ left nearest => ?_
              exact pure trivial (by omega)
            · exact (expect (by decide)).bind fun _ _ left nearer => pure trivial (by omega)

theorem closeCompound (severalLines : Bool) :
    Follows course calls head (fun _ => True) size (size + 1) (Guarded.closeCompound severalLines)
      (Parse.closeCompound severalLines) := by
  cases severalLines with
  | true => exact (expect (by decide)).bind fun _ _ left fewer => terminator.mono (by omega)
  | false => exact pure trivial (Nat.lt_succ_self size)

/-- A production that has not taken a token, and is of the rank of a statement at least, may go
on with an expression. -/
private theorem assignmentOrExpression
    (inside : Inside course calls size production bound other) (high : 1 < production.rank) :
    Follows course calls head (fun _ => True) size size (Guarded.assignmentOrExpression bound)
      (Parse.assignmentOrExpression other) := by
  refine (expression (inside.same high)).bind fun left holds _ fewer => ?_
  refine peek_bind fun token _ _ => ?_
  cases found : Parse.assignOperator? token.kind with
  | none => exact pushStatement _ fewer
  | some operator =>
      have inner : token.kind ≠ .endOfSource := by
        intro last
        rw [last] at found
        cases found
      refine skip_bind inner fun _ nearer => ?_
      cases left.target with
      | none => exact refuse _ holds
      | some target =>
          refine (expression (inside.later (by omega))).bind fun value valueHolds _ nearest => ?_
          exact merge_bind holds valueHolds (pushStatement _ (by omega))

private theorem simpleStatement (inside : Inside course calls size production bound other)
    (high : 1 < production.rank) :
    Follows course calls head (fun _ => True) size size (Guarded.simpleStatement bound)
      (Parse.simpleStatement other) := by
  refine peek_bind fun token scanned _ => ?_
  have within := scanned.within
  have inner {kind : TokenKind} (kindIs : token.kind = kind) (named : kind ≠ .endOfSource) :
      token.kind ≠ .endOfSource := kindIs ▸ named
  cases kindIs : token.kind
  case printWord =>
    refine skip_bind (inner kindIs (by decide)) fun _ fewer => ?_
    refine atTerminator.bind fun ended _ _ nearer => ?_
    cases ended with
    | true => exact pushStatement _ (by omega)
    | false =>
        refine (expression (inside.later (by omega))).bind fun value _ _ nearest => ?_
        refine (printedRest (inside.later (by omega))).bind fun rest _ _ last => ?_
        exact pushStatement _ (by omega)
  case passWord | continueWord =>
    exact skip_bind (inner kindIs (by decide)) fun _ fewer => pushStatement _ fewer
  case breakWord =>
    refine skip_bind (inner kindIs (by decide)) fun _ fewer => ?_
    refine eatIf_bind (by decide) (fun number numberScanned _ _ nearer => ?_) fun _ _ _ => ?_
    · refine merge_bind within numberScanned.within (spelled_bind numberScanned ?_)
      dsimp only
      cases number.count? with
      | none => exact refuse _ numberScanned.within
      | some count => exact pushStatement _ (by omega)
    · exact pushStatement _ (by omega)
  case returnWord =>
    refine skip_bind (inner kindIs (by decide)) fun _ fewer => ?_
    refine atTerminator.bind fun ended _ _ nearer => ?_
    cases ended with
    | true => exact pushStatement _ (by omega)
    | false =>
        refine (expression (inside.later (by omega))).bind fun value _ _ nearest => ?_
        exact pushStatement _ (by omega)
  case delWord =>
    refine skip_bind (inner kindIs (by decide)) fun _ fewer => ?_
    refine name.bind fun deleted deletedWithin _ nearer => ?_
    exact merge_bind within deletedWithin (pushStatement _ (by omega))
  all_goals exact assignmentOrExpression inside high

/-- The guarded productions for statements follow the parser, wherever they may be called. -/
structure Statements (course : Course) (bound other : Nat) : Prop where
  sequence : ∀ {calls head size}, Ready course calls size .sequence bound other → ∀ ends,
    Follows course calls head (fun _ => True) size (size + 1) (Guarded.sequence bound ends)
      (Parse.sequence other ends)
  statement : ∀ {calls head size}, Ready course calls size .statement bound other →
    Follows course calls head (fun _ => True) size size (Guarded.statement bound)
      (Parse.statement other)
  block : ∀ {calls head size}, Ready course calls size .block bound other →
    Follows course calls head (fun _ => True) size size (Guarded.block bound) (Parse.block other)
  furtherBranches : ∀ {calls head size}, Ready course calls size .furtherBranches bound other →
    ∀ severalLines, Follows course calls head (fun _ => True) size (size + 1)
      (Guarded.furtherBranches bound severalLines) (Parse.furtherBranches other severalLines)
  recordBody : ∀ {calls head size}, Ready course calls size .recordBody bound other →
    Follows course calls head (fun _ => True) size (size + 1) (Guarded.recordBody bound)
      (Parse.recordBody other)

private theorem sequence (ih : Statements course bound other)
    (ready : Ready course calls size .sequence (bound + 1) (other + 1)) (ends : List TokenKind) :
    Follows course calls head (fun _ => True) size (size + 1) (Guarded.sequence (bound + 1) ends)
      (Parse.sequence (other + 1) ends) := by
  rw [Guarded.sequence, Parse.sequence]
  refine ready.enter fun _ inside => separators_bind (by decide) (inside.same (by decide))
    fun left fewer => peek_bind fun token scanned _ => ?_
  split
  · exact pure trivial (by omega)
  · split
    · exact refuse _ scanned.within
    · refine (ih.statement (inside.upTo (by decide) fewer)).bind fun first _ _ nearer => ?_
      refine (ih.sequence (inside.later (by omega)) ends).bind fun rest _ _ nearest => ?_
      exact pure trivial (by omega)

private theorem statement (ih : Statements course bound other)
    (ready : Ready course calls size .statement (bound + 1) (other + 1)) :
    Follows course calls head (fun _ => True) size size (Guarded.statement (bound + 1))
      (Parse.statement (other + 1)) := by
  rw [Guarded.statement, Parse.statement]
  refine ready.enter fun _ inside => peek_bind fun token scanned _ => ?_
  have within := scanned.within
  cases kindIs : token.kind
  case ifWord =>
    refine expected_bind kindIs (by decide) fun _ fewer => ?_
    refine (expression (inside.later fewer)).bind fun condition _ _ second => ?_
    refine (ih.block (inside.later (by omega))).bind fun body _ _ third => ?_
    refine (ih.furtherBranches (inside.later (by omega)) body.2).bind fun branches _ _ fourth => ?_
    exact pushStatement _ (by omega)
  case whileWord =>
    refine expected_bind kindIs (by decide) fun _ fewer => ?_
    refine (expression (inside.later fewer)).bind fun condition _ _ second => ?_
    refine (ih.block (inside.later (by omega))).bind fun body _ _ third => ?_
    refine (closeCompound body.2).bind fun _ _ _ fourth => ?_
    exact pushStatement _ (by omega)
  case forWord =>
    refine expected_bind kindIs (by decide) fun _ fewer => ?_
    refine name.bind fun item _ _ second => ?_
    refine (expect (by decide)).bind fun _ _ _ third => ?_
    refine (expression (inside.later (by omega))).bind fun iterable holds _ fourth => ?_
    refine merge_bind within holds ?_
    refine (ih.block (inside.later (by omega))).bind fun body _ _ fifth => ?_
    refine (closeCompound body.2).bind fun _ _ _ sixth => ?_
    exact pushStatement _ (by omega)
  case defWord =>
    refine expected_bind kindIs (by decide) fun _ fewer => ?_
    refine name.bind fun function _ _ second => ?_
    refine (expect (by decide)).bind fun _ _ _ third => ?_
    refine (parameters (inside.later (by omega))).bind fun names _ _ fourth => ?_
    refine (ih.block (inside.later (by omega))).bind fun body _ _ fifth => ?_
    refine (closeCompound body.2).bind fun _ _ _ sixth => ?_
    exact pushStatement _ (by omega)
  case recordWord =>
    refine expected_bind kindIs (by decide) fun _ fewer => ?_
    refine name.bind fun named namedWithin _ second => ?_
    refine merge_bind within namedWithin ?_
    refine (ih.recordBody (inside.later (by omega))).bind fun body _ _ third => ?_
    exact pushStatement _ (by omega)
  all_goals
    refine (simpleStatement inside (by decide)).bind fun simple _ _ fewer => ?_
    exact terminator.bind fun _ _ _ nearer => pure trivial (by omega)

private theorem block (ih : Statements course bound other)
    (ready : Ready course calls size .block (bound + 1) (other + 1)) :
    Follows course calls head (fun _ => True) size size (Guarded.block (bound + 1))
      (Parse.block (other + 1)) := by
  rw [Guarded.block, Parse.block]
  refine ready.enter fun _ inside => accept_bind (by decide) (fun _ _ fewer => ?_) ?_
  · refine (simpleStatement (inside.shrink fewer.le) (by decide)).bind
      fun simple _ _ nearer => ?_
    exact terminator.bind fun _ _ _ nearest => pure trivial (by omega)
  · refine next_bind (fun token scanned inner _ _ fewer => ?_) fun token scanned last _ => ?_
    · have within := scanned.within
      cases kindIs : token.kind
      case newline =>
        refine (ih.sequence (inside.later fewer) _).bind fun statements _ _ nearer => ?_
        refine (link statements (Nat.lt_succ_self _)).bind fun first _ _ nearest => ?_
        exact pure trivial (by omega)
      all_goals exact refuse _ within
    · refine ⟨⟨.unexpectedEnd, token.span⟩, scanned.within, fun desk => ?_, fun cursor => ?_⟩
      · rw [last]
        rfl
      · rw [last]
        rfl

private theorem furtherBranches (ih : Statements course bound other)
    (ready : Ready course calls size .furtherBranches (bound + 1) (other + 1))
    (severalLines : Bool) :
    Follows course calls head (fun _ => True) size (size + 1)
      (Guarded.furtherBranches (bound + 1) severalLines)
      (Parse.furtherBranches (other + 1) severalLines) := by
  rw [Guarded.furtherBranches, Parse.furtherBranches]
  refine ready.enter fun _ inside => separators_accept_bind (by decide)
    (inside.same (by decide)) fun left fewer => ?_
  refine accept_bind (by decide) (fun _ _ nearer => ?_) ?_
  · refine (expression (inside.later (by omega))).bind fun condition _ _ second => ?_
    refine (ih.block (inside.later (by omega))).bind fun body _ _ third => ?_
    refine (ih.furtherBranches (inside.later (by omega)) body.2).bind fun branches _ _ fourth => ?_
    exact pure trivial (by omega)
  · refine accept_bind (by decide) (fun _ _ nearer => ?_) ?_
    · refine (ih.block (inside.later (by omega))).bind fun body _ _ second => ?_
      exact (closeCompound body.2).bind fun _ _ _ third => pure trivial (by omega)
    · exact (closeCompound severalLines).bind fun _ _ _ second => pure trivial (by omega)

private theorem recordBody (ih : Statements course bound other)
    (ready : Ready course calls size .recordBody (bound + 1) (other + 1)) :
    Follows course calls head (fun _ => True) size (size + 1) (Guarded.recordBody (bound + 1))
      (Parse.recordBody (other + 1)) := by
  rw [Guarded.recordBody, Parse.recordBody]
  refine ready.enter fun _ inside => peek_bind fun token _ _ => ?_
  cases kindIs : token.kind
  case semicolon | endOfSource =>
    exact terminator.bind fun _ _ _ fewer => pure trivial (by omega)
  all_goals
    refine (ih.block (inside.same (by decide))).bind fun body _ _ fewer => ?_
    exact (closeCompound body.2).bind fun _ _ _ nearer => pure trivial (by omega)

/-- Wherever they may be called, the guarded productions for statements follow the parser. -/
theorem statements (course : Course) (bound other : Nat) : Statements course bound other := by
  induction bound generalizing other with
  | zero =>
      constructor <;> intros <;>
        exact absurd (Ready.deep ‹Ready course _ _ _ 0 other›) (Nat.not_lt_zero _)
  | succ bound ih =>
      cases other with
      | zero =>
          constructor <;> intros <;>
            exact absurd (Ready.plain ‹Ready course _ _ _ (bound + 1) 0›) (Nat.not_lt_zero _)
      | succ other =>
          exact ⟨sequence (ih other), statement (ih other), block (ih other),
            furtherBranches (ih other), recordBody (ih other)⟩

end Follows

end ScriptEngine
