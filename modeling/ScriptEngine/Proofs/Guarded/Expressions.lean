import ScriptEngine.Proofs.Guarded.Following

/-!
# Expressions with guards

The guarded productions for expressions follow those of the parser. Each of them takes a token
before it answers, and the expression that it answers stands in the source.
-/

set_option autoImplicit false

namespace ScriptEngine

/-- What has been read as an expression stands in the source. -/
def Course.Holds (course : Course) (parsed : ParsedExpression) : Prop :=
  parsed.span.Within course.source

namespace Follows

variable {course : Course} {calls : List (Production × Nat)} {head : Option Token}
  {size limit bound other : Nat}

/-- What a production ends with: a node is pushed and becomes the expression. -/
theorem node (node : Expression) {span : Span} (within : span.Within course.source)
    (target : ExpressionRef → Option AssignTarget) (fewer : size < limit) :
    Follows course calls head course.Holds size limit
      (do
        let reference ← Guarded.pushExpression node
        return ⟨reference, span, target reference⟩)
      (do
        let reference ← Parse.pushExpression node
        return ⟨reference, span, target reference⟩) :=
  (pushExpression node fewer).bind fun _ _ _ fewer => pure within fewer

/-- The guarded productions for expressions follow the parser, wherever they may be called. -/
structure Expressions (course : Course) (bound other : Nat) : Prop where
  operand : ∀ {calls head size}, Ready course calls size .operand bound other →
    Follows course calls head course.Holds size size (Guarded.operand bound)
      (Parse.operand other)
  unary : ∀ {calls head size}, Ready course calls size .unary bound other →
    ∀ operator {start : Span}, start.Within course.source →
      Follows course calls head course.Holds size size (Guarded.unary bound operator start)
        (Parse.unary other operator start)
  listUntil : ∀ {calls head size}, Ready course calls size .listUntil bound other →
    ∀ {closing : TokenKind}, closing ≠ .endOfSource →
      Follows course calls head (fun list => course.Scanned list.2) size size
        (Guarded.listUntil bound closing) (Parse.listUntil other closing)
  suffixOf : ∀ {calls size token}, Ready course calls size .suffixOf bound other →
    token.kind = .leftParenthesis ∨ token.kind = .leftBracket ∨ token.kind = .dot →
      ∀ {left}, course.Holds left →
        Follows course calls (some token) course.Holds size size (Guarded.suffixOf bound left)
          (Parse.suffixOf other left)
  expressionFrom : ∀ {calls head size}, Ready course calls size .expressionFrom bound other →
    ∀ power, Follows course calls head course.Holds size size
      (Guarded.expressionFrom bound power) (Parse.expressionFrom other power)
  continued : ∀ {calls head size}, Ready course calls size .continued bound other →
    ∀ power {left}, course.Holds left →
      Follows course calls head course.Holds size (size + 1)
        (Guarded.continued bound power left) (Parse.continued other power left)

private theorem operand (ih : Expressions course bound other)
    (ready : Ready course calls size .operand (bound + 1) (other + 1)) :
    Follows course calls head course.Holds size size (Guarded.operand (bound + 1))
      (Parse.operand (other + 1)) := by
  rw [Guarded.operand, Parse.operand]
  refine ready.enter fun _ inside => next_bind (fun token scanned inner _ left fewer => ?_)
    fun token scanned last _ => ?_
  · have within := scanned.within
    refine spelled_bind scanned ?_
    cases kindIs : token.kind
    case endOfSource => exact (inner kindIs).elim
    case number =>
      obtain ⟨value, read⟩ := Option.isSome_iff_exists.mp (Token.isSome_number? scanned kindIs)
      have number : token.number = value := by
        rw [Token.number, read]
        rfl
      dsimp only
      rw [read, number]
      exact node _ within (fun _ => none) fewer
    case text | trueWord | falseWord | noneWord =>
      exact node _ within (fun _ => none) fewer
    case identifier =>
      exact node _ within (fun _ => some (.name token.lexeme)) fewer
    case minus | notWord => exact (ih.unary (inside.later fewer) _ within).mono fewer.le
    case leftParenthesis =>
      refine (ih.expressionFrom (inside.later fewer) 0).bind fun inner _ left nearer => ?_
      refine (expect (by decide)).bind fun close found left nearer => ?_
      exact merge_bind within found.1.within
        (pure (within.merge found.1.within) (by omega))
    case leftBracket =>
      refine (ih.listUntil (inside.later fewer) (by decide)).bind fun list closes left nearer => ?_
      exact merge_bind within closes.within
        (node _ (within.merge closes.within) (fun _ => none) (by omega))
    all_goals exact refuse _ within
  · refine ⟨⟨.unexpectedEnd, token.span⟩, scanned.within, fun desk => ?_, fun cursor => ?_⟩
    · rw [Guarded.bind_ok (scanned.spelled _ desk), last]
      rfl
    · rw [last]
      rfl

private theorem listUntil (ih : Expressions course bound other)
    (ready : Ready course calls size .listUntil (bound + 1) (other + 1)) {closing : TokenKind}
    (named : closing ≠ .endOfSource) :
    Follows course calls head (fun list => course.Scanned list.2) size size
      (Guarded.listUntil (bound + 1) closing) (Parse.listUntil (other + 1) closing) := by
  rw [Guarded.listUntil, Parse.listUntil]
  refine ready.enter fun _ inside => eatIf_bind named (fun close scanned _ left fewer => ?_)
    fun token _ _ => ?_
  · exact pure scanned fewer
  · refine (ih.expressionFrom (inside.same (by decide)) 0).bind fun item _ left fewer => ?_
    refine accept_bind (by decide) (fun _ left nearer => ?_) ?_
    · refine (ih.listUntil (inside.later (by omega)) named).bind fun list closes left nearer => ?_
      exact pure closes (by omega)
    · exact (expect named).bind fun close found left nearer => pure found.1 (by omega)

private theorem suffixOf (ih : Expressions course bound other)
    (ready : Ready course calls size .suffixOf (bound + 1) (other + 1)) {token : Token}
    (opens : token.kind = .leftParenthesis ∨ token.kind = .leftBracket ∨ token.kind = .dot)
    {left : ParsedExpression} (holds : course.Holds left) :
    Follows course calls (some token) course.Holds size size (Guarded.suffixOf (bound + 1) left)
      (Parse.suffixOf (other + 1) left) := by
  rw [Guarded.suffixOf, Parse.suffixOf]
  refine ready.enter fun _ inside => next_bind (fun found scanned inner same fewest fewer => ?_)
    fun found _ last same => ?_
  · obtain rfl := same token rfl
    rcases opens with kindIs | kindIs | kindIs
    · rw [kindIs]
      refine (ih.listUntil (inside.later fewer) (by decide)).bind fun list closes _ nearer => ?_
      exact merge_bind holds closes.within
        (node _ (holds.merge closes.within) (fun _ => none) (by omega))
    · rw [kindIs]
      refine (ih.expressionFrom (inside.later fewer) 0).bind fun index _ _ nearer => ?_
      refine (expect (by decide)).bind fun close found _ nearer => ?_
      exact merge_bind holds found.1.within (node _ (holds.merge found.1.within)
        (fun _ => some (.element left.node index.node)) (by omega))
    · rw [kindIs]
      refine name.bind fun named within _ nearer => ?_
      refine (pushExpression (.name named.1 named.2) (Nat.lt_succ_self _)).bind
        fun member _ _ nearer => ?_
      exact merge_bind holds within (node _ (holds.merge within)
        (fun _ => some (.member left.node named.1)) (by omega))
  · obtain rfl := same token rfl
    rw [last] at opens
    exact absurd opens (by decide)

private theorem continued (ih : Expressions course bound other)
    (ready : Ready course calls size .continued (bound + 1) (other + 1)) (power : Nat)
    {left : ParsedExpression} (holds : course.Holds left) :
    Follows course calls head course.Holds size (size + 1)
      (Guarded.continued (bound + 1) power left) (Parse.continued (other + 1) power left) := by
  rw [Guarded.continued, Parse.continued]
  refine ready.enter fun within inside => peek_bind fun token _ _ => ?_
  have suffix (opens : token.kind = .leftParenthesis ∨ token.kind = .leftBracket ∨
      token.kind = .dot) :
      Follows course within (some token) course.Holds size (size + 1)
        (if suffixPower < power then return left
          else do
            let extended ← Guarded.suffixOf bound left
            Guarded.continued bound power extended)
        (if suffixPower < power then return left
          else do
            let extended ← Parse.suffixOf other left
            Parse.continued other power extended) := by
    split
    · exact pure holds (Nat.lt_succ_self size)
    · refine (ih.suffixOf (inside.same (by decide)) opens holds).bind
        fun extended holds _ fewer => ?_
      exact (ih.continued (inside.later fewer) power holds).mono (by omega)
  have operation (inner : token.kind ≠ .endOfSource) (operator : MiddleOperator) :
      Follows course within (some token) course.Holds size (size + 1)
        (if operator.bindingPower < power then return left
          else do
            let _ ← Guarded.next
            let right ← Guarded.expressionFrom bound (operator.bindingPower + 1)
            let span ← Guarded.merge left.span right.span
            let node ← Guarded.pushExpression (operator.node left.node right.node span)
            Guarded.continued bound power ⟨node, span, none⟩)
        (if operator.bindingPower < power then return left
          else do
            Parse.skip
            let right ← Parse.expressionFrom other (operator.bindingPower + 1)
            let span := left.span.merge right.span
            let node ← Parse.pushExpression (operator.node left.node right.node span)
            Parse.continued other power ⟨node, span, none⟩) := by
    split
    · exact pure holds (Nat.lt_succ_self size)
    · refine skip_bind inner fun _ fewer => ?_
      refine (ih.expressionFrom (inside.later fewer) _).bind fun right rightHolds _ nearer => ?_
      refine merge_bind holds rightHolds ?_
      refine (pushExpression _ (Nat.lt_succ_self _)).bind fun node _ _ nearest => ?_
      have merged : course.Holds ⟨node, left.span.merge right.span, none⟩ :=
        Span.Within.merge holds rightHolds
      exact (ih.continued (inside.later (by omega)) power merged).mono (by omega)
  cases kindIs : token.kind
  case leftParenthesis => exact suffix (.inl kindIs)
  case leftBracket => exact suffix (.inr (.inl kindIs))
  case dot => exact suffix (.inr (.inr kindIs))
  case plus | minus | star | slash | percent | equalEqual | bangEqual | lessThan | lessThanEqual
      | greaterThan | greaterThanEqual | inWord | andWord | orWord =>
    have inner : token.kind ≠ .endOfSource := by
      rw [kindIs]
      decide
    refine look_bind ?_
    rw [kindIs]
    exact operation inner _
  -- No other token continues an expression.
  all_goals
    refine look_bind ?_
    rw [kindIs]
    exact pure holds (Nat.lt_succ_self size)

/-- Wherever they may be called, the guarded productions for expressions follow the parser. -/
theorem expressions (course : Course) (bound other : Nat) : Expressions course bound other := by
  induction bound generalizing other with
  | zero =>
      constructor <;> intros <;>
        exact absurd (Ready.deep ‹Ready course _ _ _ 0 other›) (Nat.not_lt_zero _)
  | succ bound ih =>
      cases other with
      | zero =>
          constructor <;> intros <;>
            exact absurd (Ready.plain ‹Ready course _ _ _ (bound + 1) 0›) (Nat.not_lt_zero _)
      | succ other =>
          exact {
            operand := operand (ih other)
            unary := fun ready operator start within => by
              rw [Guarded.unary, Parse.unary]
              refine ready.enter fun _ inside => ?_
              refine ((ih other).expressionFrom (inside.same (by decide)) _).bind
                fun inner holds _ fewer => ?_
              exact merge_bind within holds (node _ (within.merge holds) (fun _ => none) fewer)
            listUntil := listUntil (ih other)
            suffixOf := fun ready opens _ holds => suffixOf (ih other) ready opens holds
            expressionFrom := fun ready power => by
              rw [Guarded.expressionFrom, Parse.expressionFrom]
              refine ready.enter fun _ inside => ?_
              refine ((ih other).operand (inside.same (by decide))).bind
                fun left holds _ fewer => ?_
              exact ((ih other).continued (inside.later fewer) power holds).mono (by omega)
            continued := continued (ih other) }

theorem expression (ready : Ready course calls size .expressionFrom bound other) :
    Follows course calls head course.Holds size size (Guarded.expression bound)
      (Parse.expression other) :=
  (expressions course bound other).expressionFrom ready 0

end Follows

end ScriptEngine
