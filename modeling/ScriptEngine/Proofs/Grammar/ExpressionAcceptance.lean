import ScriptEngine.Proofs.Grammar.Derivation
import ScriptEngine.Proofs.Grammar.RoundTrip

/-!
# Every expression of the grammar is accepted

An operator takes what stands before it only where it binds strongly enough. So reading
a whole expression for some power may leave an operator of a lower level, with a whole
expression behind it, to whoever asked for that power. Rows are handled by their length:
what is left behind an operand is no part of the derivation, but it is shorter.
-/

set_option autoImplicit false

namespace ScriptEngine

namespace Parse

variable {α β : Type}

/-!
## Accepting
-/

/-- From any script on, the production takes tokens until the ones `after` are left, once
it is allowed more than `cost` calls. -/
def Accepts (production : Nat → Parse α) (good : α → Prop) (cost : Nat)
    (tokens after : List Token) : Prop :=
  ∀ script, ∃ result grown, good result ∧ ∀ bound, cost < bound →
    production bound (.reading tokens script) = .ok (result, .reading after grown)

variable {good : α → Prop} {cost : Nat} {tokens middle after rest : List Token}

theorem Accepts.mono {production : Nat → Parse α} {larger : Nat}
    (accepts : Accepts production good cost tokens after) (le : cost ≤ larger) :
    Accepts production good larger tokens after := by
  intro script
  obtain ⟨result, grown, fine, same⟩ := accepts script
  exact ⟨result, grown, fine, fun bound enough => same bound (Nat.lt_of_le_of_lt le enough)⟩

/-- A production that goes on as another one behind some tokens. -/
theorem Accepts.of_step {production further : Nat → Parse α}
    (step : ∀ bound script, production bound (.reading tokens script) =
      further bound (.reading middle script))
    (accepts : Accepts further good cost middle after) :
    Accepts production good cost tokens after := by
  intro script
  obtain ⟨result, grown, fine, same⟩ := accepts script
  exact ⟨result, grown, fine, fun bound enough => (step bound script).trans (same bound enough)⟩

/-- A production that spends a call and goes on as another one. -/
theorem Accepts.of_call {production further : Nat → Parse α}
    (step : ∀ bound script, production (bound + 1) (.reading tokens script) =
      further bound (.reading middle script))
    (accepts : Accepts further good cost middle after) :
    Accepts production good (cost + 1) tokens after := by
  intro script
  obtain ⟨result, grown, fine, same⟩ := accepts script
  refine ⟨result, grown, fine, fun bound enough => ?_⟩
  obtain ⟨bound, rfl⟩ : ∃ fewer, bound = fewer + 1 := ⟨bound - 1, by omega⟩
  exact (step bound script).trans (same bound (by omega))

theorem Accepts.bind {first : Nat → Parse α} {following : α → Nat → Parse β}
    {fine : β → Prop} (accepts : Accepts first good cost tokens middle)
    (acceptsRest : ∀ result, good result → Accepts (following result) fine cost middle after) :
    Accepts (fun bound => first bound >>= fun result => following result bound) fine cost
      tokens after := by
  intro script
  obtain ⟨result, grown, resultGood, same⟩ := accepts script
  obtain ⟨value, final, valueFine, sameRest⟩ := acceptsRest result resultGood grown
  exact ⟨value, final, valueFine, fun bound enough =>
    (bind_of_ok (same bound enough)).trans (sameRest bound enough)⟩

theorem accepts_pure {value : α} (fine : good value) :
    Accepts (fun _ => pure value) good cost tokens tokens :=
  fun script => ⟨value, script, fine, fun _ _ => rfl⟩

theorem accepts_return (value : α) :
    Accepts (fun _ => pure value) (fun _ => True) cost tokens tokens :=
  accepts_pure trivial

theorem accepts_expect {kind : TokenKind} {token : Token} (same : token.kind = kind)
    (more : rest ≠ []) : Accepts (fun _ => expect kind) (fun _ => True) cost (token :: rest) rest :=
  fun script => ⟨token, script, trivial, fun _ _ => expect_reading same more script⟩

theorem accepts_identifier {token : Token} (kind : token.kind = .identifier) (more : rest ≠ []) :
    Accepts (fun _ => name) (fun _ => True) cost (token :: rest) rest :=
  fun script => ⟨_, script, trivial, fun _ _ => name_reading kind more script⟩

theorem accepts_pushExpression (node : Expression) :
    Accepts (fun _ => pushExpression node) (fun _ => True) cost tokens tokens :=
  fun _ => ⟨_, _, trivial, fun _ _ => rfl⟩

/-!
## Operands
-/

/-- The tokens in front are read as an expression, which becomes the left operand of what
is behind them. -/
def Precedes (power : Nat) (tokens rest : List Token) (good : ParsedExpression → Prop) : Prop :=
  ∀ script, ∃ left grown, good left ∧ ∀ bound, 4 * tokens.length < bound →
    ∃ further, bound ≤ further + 4 * tokens.length ∧
      expressionFrom bound power (.reading (tokens ++ rest) script) =
        continued further power left (.reading rest grown)

variable {power : Nat} {fine : ParsedExpression → Prop}

theorem Precedes.mono {better : ParsedExpression → Prop}
    (precedes : Precedes power tokens rest fine) (le : ∀ left, fine left → better left) :
    Precedes power tokens rest better := by
  intro script
  obtain ⟨left, grown, leftFine, reads⟩ := precedes script
  exact ⟨left, grown, le left leftFine, reads⟩

theorem Precedes.of_operand (accepts : Accepts operand fine cost (tokens ++ rest) rest)
    (few : cost + 2 ≤ 4 * tokens.length) : Precedes power tokens rest fine := by
  intro script
  obtain ⟨left, grown, leftFine, reads⟩ := accepts script
  refine ⟨left, grown, leftFine, fun bound enough => ?_⟩
  obtain ⟨further, rfl⟩ : ∃ further, bound = further + 1 := ⟨bound - 1, by omega⟩
  refine ⟨further, by omega, ?_⟩
  rw [expressionFrom, bind_of_ok (reads further (by omega))]

theorem Precedes.apply {token : Token} {applied : List Token} {better : ParsedExpression → Prop}
    (precedes : Precedes power tokens (token :: applied ++ rest) fine)
    (opens : token.kind.leftPower = suffixPower) (le : power ≤ suffixPower)
    (accepts : ∀ left, Accepts (suffixOf · left) better cost (token :: applied ++ rest) rest)
    (few : cost ≤ 4 * applied.length + 2) :
    Precedes power (tokens ++ token :: applied) rest better := by
  intro script
  obtain ⟨left, grown, _, begun⟩ := precedes script
  obtain ⟨whole, final, wholeFine, reads⟩ := accepts left grown
  refine ⟨whole, final, wholeFine, fun bound enough => ?_⟩
  simp only [List.length_append, List.length_cons] at enough ⊢
  obtain ⟨further, spent, same⟩ := begun bound (by omega)
  obtain ⟨more, rfl⟩ : ∃ more, further = more + 1 := ⟨further - 1, by omega⟩
  refine ⟨more, by omega, ?_⟩
  rw [List.append_assoc, same, List.cons_append, continued_suffix opens le,
    ← List.cons_append, bind_of_ok (reads more (by omega))]

/-- Going on behind an operand. -/
theorem Precedes.accepts {better : ParsedExpression → Prop}
    (precedes : Precedes power tokens rest fine)
    (accepts : ∀ left, fine left → Accepts (continued · power left) better cost rest after) :
    Accepts (expressionFrom · power) better (4 * tokens.length + cost) (tokens ++ rest) after := by
  intro script
  obtain ⟨left, grown, leftFine, begun⟩ := precedes script
  obtain ⟨result, final, resultBetter, reads⟩ := accepts left leftFine grown
  refine ⟨result, final, resultBetter, fun bound enough => ?_⟩
  obtain ⟨further, spent, same⟩ := begun bound (by omega)
  exact same.trans (reads further (by omega))

theorem accepts_stops {left : ParsedExpression} (leftFine : fine left) {following : Token}
    (stops : following.kind.leftPower = 0 ∨ following.kind.leftPower < power) (rest : List Token) :
    Accepts (continued · power left) fine 0 (following :: rest) (following :: rest) := by
  intro script
  refine ⟨left, script, leftFine, fun bound enough => ?_⟩
  obtain ⟨bound, rfl⟩ : ∃ fewer, bound = fewer + 1 := ⟨bound - 1, by omega⟩
  exact continued_stops stops rest script

theorem Precedes.stops {following : Token}
    (precedes : Precedes power tokens (following :: rest) fine)
    (stops : following.kind.leftPower = 0) :
    Accepts (expressionFrom · power) fine (4 * tokens.length) (tokens ++ following :: rest)
      (following :: rest) :=
  precedes.accepts fun _ leftFine => accepts_stops leftFine (.inl stops) rest

/-!
## The rows of each symbol
-/

/-- What can be left of a whole expression that was read for some power: nothing, or an
operator that does not bind strongly enough, with its right operand. -/
inductive Remains (power : Nat) : List Token → Prop where
  | nothing : Remains power []
  | operator {token : Token} {right : List Token} (operator : MiddleOperator) :
      token.kind = operator.word.kind → operator.level < power →
      ExpressionSymbol.whole.Derives right → Remains power (token :: right)

theorem Remains.eq_nil {left : List Token} (remains : Remains 0 left) : left = [] := by
  cases remains with
  | nothing => rfl
  | operator _ _ below => exact absurd below (Nat.not_lt_zero _)

/-- What reading a row of the symbol gives, whatever stands behind the row as long as it
is no part of it. -/
def Accepted : ExpressionSymbol → List Token → Prop
  | .target, row =>
      ∀ power rest, power ≤ suffixPower → rest ≠ [] →
        Precedes power row rest fun left => left.target.isSome = true
  | .applied, row =>
      ∀ power rest, power ≤ suffixPower → rest ≠ [] → Precedes power row rest fun _ => True
  | .whole, row =>
      ∀ power following rest, power ≤ suffixPower → following.kind.leftPower = 0 →
        ∃ used left, row = used ++ left ∧ used ≠ [] ∧ Remains power left ∧
          Accepts (expressionFrom · power) (fun _ => True) (4 * used.length)
            (row ++ following :: rest) (left ++ following :: rest)
  | .items, row | .list, row =>
      ∀ closing close rest, closing = TokenKind.rightParenthesis ∨ closing = .rightBracket →
        close.kind = closing → rest ≠ [] →
        Accepts (listUntil · closing) (fun _ => True) (4 * row.length + 1) (row ++ close :: rest)
          rest

/-- For the weakest power nothing is left. -/
theorem accepts_whole {row : List Token} (accepted : Accepted .whole row) {following : Token}
    (ends : following.kind.leftPower = 0) (rest : List Token) :
    Accepts expression (fun _ => True) (4 * row.length) (row ++ following :: rest)
      (following :: rest) := by
  obtain ⟨used, left, rfl, _, remains, accepts⟩ := accepted 0 following rest (Nat.zero_le _) ends
  obtain rfl := remains.eq_nil
  rw [List.append_nil] at accepts ⊢
  exact accepts

/-!
## Operators behind an operand
-/

/-- What was left for a weaker power is gone on with, as far as the operators go. -/
theorem accepts_remaining {higher bound : Nat} {tail : List Token} (remains : Remains higher tail)
    (shorter : ∀ row : List Token, row.length < bound → ExpressionSymbol.whole.Derives row →
      Accepted .whole row)
    (short : tail.length ≤ bound) {following : Token} (ends : following.kind.leftPower = 0)
    (rest : List Token) :
    ∃ used left, tail = used ++ left ∧ Remains power left ∧ ∀ parsed,
      Accepts (continued · power parsed) (fun _ => True) (4 * used.length)
        (tail ++ following :: rest) (left ++ following :: rest) := by
  induction length : tail.length using Nat.strong_induction_on generalizing tail higher with
  | _ length ih =>
  cases remains with
  | nothing =>
      exact ⟨[], [], rfl, .nothing, fun parsed => accepts_stops trivial (.inl ends) rest⟩
  | @operator token right operator kind below derived =>
      have binds : token.kind.leftPower = operator.level := by
        rw [kind]
        exact TokenKind.leftPower_of_ofKind? operator.ofKind?_word
      rcases Nat.lt_or_ge operator.level power with weaker | strong
      · exact ⟨[], token :: right, rfl, .operator operator kind weaker derived, fun parsed =>
          accepts_stops trivial (.inr (binds ▸ weaker)) _⟩
      · have rightLe : operator.level + 1 ≤ suffixPower := operator.level_lt_suffixPower
        simp only [List.length_cons] at short length
        obtain ⟨operand, between, rfl, _, remainsBetween, acceptsRight⟩ :=
          shorter right (by omega) derived (operator.level + 1) following rest rightLe ends
        simp only [List.length_append] at short length
        -- What the right operand leaves is no part of it, but it is shorter than the tail.
        obtain ⟨used, left, rfl, remainsLeft, acceptsLeft⟩ :=
          ih between.length (by omega) remainsBetween (by omega) rfl
        refine ⟨token :: operand ++ used, left, by simp, remainsLeft, fun parsed => ?_⟩
        have accepts : Accepts (fun bound => do
            let right ← expressionFrom bound (operator.level + 1)
            let node ← pushExpression
              (operator.node parsed.node right.node (parsed.span.merge right.span))
            continued bound power ⟨node, parsed.span.merge right.span, none⟩) (fun _ => True)
            (4 * (operand.length + used.length))
            (operand ++ (used ++ left) ++ following :: rest) (left ++ following :: rest) := by
          apply Accepts.bind (acceptsRight.mono (by omega))
          intro result _
          apply Accepts.bind (accepts_pushExpression _)
          intro node _
          exact (acceptsLeft _).mono (by omega)
        refine (Accepts.of_call (fun bound script => ?_) accepts).mono ?_
        · exact continued_middle kind strong (by simp) script
        · simp only [List.length_append, List.length_cons]
          omega

/-- An operand at the front of a whole expression, and what was left behind it. -/
theorem accepted_of_precedes {higher bound : Nat} {front tail : List Token}
    (shorter : ∀ row : List Token, row.length < bound → ExpressionSymbol.whole.Derives row →
      Accepted .whole row)
    (short : tail.length ≤ bound) (remains : Remains higher tail) {following : Token}
    (ends : following.kind.leftPower = 0) {rest : List Token} (nonempty : front ≠ [])
    (precedes : Precedes power front (tail ++ following :: rest) fine) :
    ∃ used left, front ++ tail = used ++ left ∧ used ≠ [] ∧ Remains power left ∧
      Accepts (expressionFrom · power) (fun _ => True) (4 * used.length)
        (front ++ tail ++ following :: rest) (left ++ following :: rest) := by
  obtain ⟨used, left, rfl, remainsLeft, accepts⟩ :=
    accepts_remaining remains shorter short ends rest
  refine ⟨front ++ used, left, by simp, List.append_ne_nil_of_left_ne_nil nonempty _, remainsLeft,
    ?_⟩
  have accepted := precedes.accepts fun parsed _ => accepts parsed
  rw [List.append_assoc front]
  exact accepted.mono (by simp; omega)

/-!
## The forms of operands
-/

theorem accepts_literal {token : Token} (literal : token.kind.isLiteral = true)
    (more : rest ≠ []) : Accepts operand (fun _ => True) 1 (token :: rest) rest := by
  have accepts (value : Value) :
      Accepts (fun _ => Parse.literal value token.span) (fun _ => True) 0 rest rest := by
    apply Accepts.bind (accepts_pushExpression _)
    intro node _
    exact accepts_pure trivial
  exact Accepts.of_call (operand_of_isLiteral literal more) (accepts token.literal)

theorem accepts_name {token : Token} (kind : token.kind = .identifier) (more : rest ≠ []) :
    Accepts operand (fun left => left.target.isSome = true) 1 (token :: rest) rest := by
  have accepts : Accepts (fun _ => do
      let node ← pushExpression (.name token.lexeme token.span)
      return (⟨node, token.span, some (.name token.lexeme)⟩ : ParsedExpression))
      (fun left => left.target.isSome = true) 0 rest rest := by
    apply Accepts.bind (accepts_pushExpression _)
    intro node _
    exact accepts_pure rfl
  refine Accepts.of_call (fun bound script => ?_) accepts
  rw [operand, bind_of_ok (next_reading token more script), kind]

theorem accepts_enclosed {opened close : Token} {inner : List Token}
    (openKind : opened.kind = .leftParenthesis) (closeKind : close.kind = .rightParenthesis)
    (accepted : Accepted .whole inner) (more : rest ≠ []) :
    Accepts operand (fun _ => True) (4 * inner.length + 1)
      (opened :: (inner ++ [close]) ++ rest) rest := by
  have ends : close.kind.leftPower = 0 := by
    rw [closeKind]
    rfl
  have accepts : Accepts (fun bound => do
      let parsed ← expression bound
      let token ← expect .rightParenthesis
      return (⟨parsed.node, opened.span.merge token.span, none⟩ : ParsedExpression))
      (fun _ => True) (4 * inner.length) (inner ++ close :: rest) rest := by
    apply Accepts.bind (accepts_whole accepted ends rest)
    intro parsed _
    apply Accepts.bind (accepts_expect closeKind more)
    intro token _
    exact accepts_pure trivial
  refine Accepts.of_call (fun bound script => ?_) accepts
  rw [List.cons_append, List.append_assoc, operand,
    bind_of_ok (next_reading opened (by simp) script), openKind]
  rfl

theorem accepts_unary {token : Token} {operator : UnaryOperator} {left : List Token}
    (kind : token.kind = operator.word.kind) (more : tokens ≠ [])
    (accepts : Accepts (expressionFrom · operator.level) (fun _ => True) cost tokens left) :
    Accepts operand (fun _ => True) (cost + 2) (token :: tokens) left := by
  have reads : Accepts (fun bound => do
      let inner ← expressionFrom bound operator.level
      let node ← pushExpression (.unary operator inner.node (token.span.merge inner.span))
      return (⟨node, token.span.merge inner.span, none⟩ : ParsedExpression))
      (fun _ => True) cost tokens left := by
    apply Accepts.bind accepts
    intro inner _
    apply Accepts.bind (accepts_pushExpression _)
    intro node _
    exact accepts_pure trivial
  have operated : Accepts (Parse.unary · operator token.span) (fun _ => True) (cost + 1) tokens
      left := by
    refine Accepts.of_call (fun bound script => ?_) reads
    rw [Parse.unary, operator.bindingPower_eq]
  refine Accepts.of_call (fun bound script => ?_) operated
  rw [operand, bind_of_ok (next_reading token more script), kind]
  cases operator <;> rfl

theorem accepts_array {opened close : Token} {elements : List Token}
    (openKind : opened.kind = .leftBracket) (closeKind : close.kind = .rightBracket)
    (accepted : Accepted .list elements) (more : rest ≠ []) :
    Accepts operand (fun _ => True) (4 * elements.length + 2)
      (opened :: (elements ++ [close]) ++ rest) rest := by
  have accepts : Accepts (fun bound => do
      let listed ← listUntil bound .rightBracket
      let node ← pushExpression (.array listed.1 (opened.span.merge listed.2.span))
      return (⟨node, opened.span.merge listed.2.span, none⟩ : ParsedExpression))
      (fun _ => True) (4 * elements.length + 1) (elements ++ close :: rest) rest := by
    apply Accepts.bind (accepted .rightBracket close rest (.inr rfl) closeKind more)
    intro row _
    apply Accepts.bind (accepts_pushExpression _)
    intro node _
    exact accepts_pure trivial
  refine Accepts.of_call (fun bound script => ?_) accepts
  rw [List.cons_append, List.append_assoc, operand,
    bind_of_ok (next_reading opened (by simp) script), openKind]
  rfl

theorem accepts_call {opened close : Token} {arguments : List Token}
    (openKind : opened.kind = .leftParenthesis) (closeKind : close.kind = .rightParenthesis)
    (accepted : Accepted .list arguments) (more : rest ≠ []) (left : ParsedExpression) :
    Accepts (suffixOf · left) (fun _ => True) (4 * arguments.length + 2)
      (opened :: (arguments ++ [close]) ++ rest) rest := by
  have accepts : Accepts (fun bound => do
      let listed ← listUntil bound .rightParenthesis
      let node ← pushExpression (.call left.node listed.1 (left.span.merge listed.2.span))
      return (⟨node, left.span.merge listed.2.span, none⟩ : ParsedExpression))
      (fun _ => True) (4 * arguments.length + 1) (arguments ++ close :: rest) rest := by
    apply Accepts.bind (accepted .rightParenthesis close rest (.inl rfl) closeKind more)
    intro row _
    apply Accepts.bind (accepts_pushExpression _)
    intro node _
    exact accepts_pure trivial
  refine Accepts.of_call (fun bound script => ?_) accepts
  rw [List.cons_append, List.append_assoc, suffixOf,
    bind_of_ok (next_reading opened (by simp) script), openKind]
  rfl

theorem accepts_element {opened close : Token} {index : List Token}
    (openKind : opened.kind = .leftBracket) (closeKind : close.kind = .rightBracket)
    (accepted : Accepted .whole index) (more : rest ≠ []) (left : ParsedExpression) :
    Accepts (suffixOf · left) (fun left => left.target.isSome = true) (4 * index.length + 1)
      (opened :: (index ++ [close]) ++ rest) rest := by
  have ends : close.kind.leftPower = 0 := by
    rw [closeKind]
    rfl
  have accepts : Accepts (fun bound => do
      let index ← expression bound
      let token ← expect .rightBracket
      let node ← pushExpression (.element left.node index.node (left.span.merge token.span))
      return (⟨node, left.span.merge token.span, some (.element left.node index.node)⟩ :
        ParsedExpression))
      (fun left => left.target.isSome = true) (4 * index.length) (index ++ close :: rest) rest := by
    apply Accepts.bind (accepts_whole accepted ends rest)
    intro parsed _
    apply Accepts.bind (accepts_expect closeKind more)
    intro token _
    apply Accepts.bind (accepts_pushExpression _)
    intro node _
    exact accepts_pure rfl
  refine Accepts.of_call (fun bound script => ?_) accepts
  rw [List.cons_append, List.append_assoc, suffixOf,
    bind_of_ok (next_reading opened (by simp) script), openKind]
  rfl

theorem accepts_member {dot token : Token} (dotKind : dot.kind = .dot)
    (kind : token.kind = .identifier) (more : rest ≠ []) (left : ParsedExpression) :
    Accepts (suffixOf · left) (fun left => left.target.isSome = true) 1
      (dot :: [token] ++ rest) rest := by
  have accepts : Accepts (fun _ => do
      let named ← name
      let member ← pushExpression (.name named.1 named.2)
      let node ← pushExpression (.member left.node member (left.span.merge named.2))
      return (⟨node, left.span.merge named.2, some (.member left.node named.1)⟩ :
        ParsedExpression))
      (fun left => left.target.isSome = true) 0 (token :: rest) rest := by
    apply Accepts.bind (accepts_identifier kind more)
    intro named _
    apply Accepts.bind (accepts_pushExpression _)
    intro member _
    apply Accepts.bind (accepts_pushExpression _)
    intro node _
    exact accepts_pure rfl
  refine Accepts.of_call (fun bound script => ?_) accepts
  rw [List.cons_append, List.singleton_append, suffixOf,
    bind_of_ok (next_reading dot (by simp) script), dotKind]

/-!
## All rows
-/

theorem accepted_target {bound : Nat} {row : List Token}
    (shorter : ∀ symbol row, row.length < bound → ExpressionSymbol.Derives symbol row →
      Accepted symbol row)
    (short : row.length ≤ bound) (derived : ExpressionSymbol.target.Derives row) :
    Accepted .target row := by
  intro power rest le more
  cases derived with
  | name kind => exact .of_operand (accepts_name kind more) (by simp)
  | member object dotKind kind =>
      simp only [List.length_append, List.length_cons, List.length_nil] at short
      exact Precedes.apply (shorter _ _ (by omega) object power _ le (by simp))
        (by rw [dotKind]; rfl) le (fun left => accepts_member dotKind kind more left) (by simp)
  | element object openKind index closeKind =>
      simp only [List.length_append, List.length_cons, List.length_nil] at short
      exact Precedes.apply (shorter _ _ (by omega) object power _ le (by simp))
        (by rw [openKind]; rfl) le
        (accepts_element openKind closeKind (shorter _ _ (by omega) index) more) (by simp; omega)

theorem accepted_applied {bound : Nat} {row : List Token}
    (shorter : ∀ symbol row, row.length < bound → ExpressionSymbol.Derives symbol row →
      Accepted symbol row)
    (short : row.length ≤ bound) (derived : ExpressionSymbol.applied.Derives row) :
    Accepted .applied row := by
  intro power rest le more
  cases derived with
  | target derived =>
      exact (accepted_target shorter short derived power rest le more).mono fun _ _ => trivial
  | literal literal => exact .of_operand (accepts_literal literal more) (by simp)
  | enclosed openKind inner closeKind =>
      simp only [List.length_append, List.length_cons, List.length_nil] at short
      exact .of_operand
        (accepts_enclosed openKind closeKind (shorter _ _ (by omega) inner) more) (by simp; omega)
  | array openKind elements closeKind =>
      simp only [List.length_append, List.length_cons, List.length_nil] at short
      exact .of_operand
        (accepts_array openKind closeKind (shorter _ _ (by omega) elements) more) (by simp; omega)
  | call callee openKind arguments closeKind =>
      simp only [List.length_append, List.length_cons, List.length_nil] at short
      exact Precedes.apply (shorter _ _ (by omega) callee power _ le (by simp))
        (by rw [openKind]; rfl) le
        (accepts_call openKind closeKind (shorter _ _ (by omega) arguments) more) (by simp)

theorem accepted_whole {bound : Nat} {row : List Token}
    (shorter : ∀ symbol row, row.length < bound → ExpressionSymbol.Derives symbol row →
      Accepted symbol row)
    (short : row.length ≤ bound) (derived : ExpressionSymbol.whole.Derives row) :
    Accepted .whole row := by
  intro power following rest le ends
  have operands := shorter .whole
  cases derived with
  | applied derived =>
      obtain ⟨first, others, rfl, _⟩ := derived.begins nofun
      have precedes := accepted_applied shorter short derived power (following :: rest) le (by simp)
      have remains : Remains 0 [] := .nothing
      have accepted := accepted_of_precedes operands (Nat.zero_le _) remains ends (by simp) precedes
      simpa using accepted
  | @unary token operand operator kind derived =>
      simp only [List.length_cons] at short
      have levelLe : operator.level ≤ suffixPower := by cases operator <;> decide
      obtain ⟨used, left, rfl, _, remains, accepts⟩ :=
        shorter _ _ (by omega) derived operator.level following rest levelLe ends
      simp only [List.length_append] at short
      have operated : Accepts operand (fun _ => True) (4 * used.length + 2)
          (token :: used ++ (left ++ following :: rest)) (left ++ following :: rest) := by
        simpa using accepts_unary kind (by simp) accepts
      have precedes : Precedes power (token :: used) (left ++ following :: rest) fun _ => True :=
        .of_operand operated (by simp; omega)
      have accepted := accepted_of_precedes operands (by omega) remains ends (by simp) precedes
      simpa using accepted
  | @middle token left right operator leftDerived kind rightDerived =>
      obtain ⟨first, others, rfl, _⟩ := leftDerived.begins nofun
      simp only [List.length_append, List.length_cons] at short
      have remains : Remains (operator.level + 1) (token :: right) :=
        .operator operator kind (Nat.lt_succ_self _) rightDerived
      have precedes := shorter .applied _ (by simp; omega) leftDerived power
        (token :: right ++ following :: rest) le (by simp)
      exact accepted_of_precedes operands (by simp; omega) remains ends (by simp) precedes

/-- An expression in a list, and what is read behind it. -/
theorem accepts_item {closing : TokenKind} {front behind : List Token} {following : Token}
    (closes : closing = .rightParenthesis ∨ closing = .rightBracket)
    (derived : ExpressionSymbol.whole.Derives front) (accepted : Accepted .whole front)
    (ends : following.kind.leftPower = 0) (enough : 4 * front.length ≤ cost)
    (acceptsRest : ∀ item : ParsedExpression, Accepts (fun bound => do
      if ← accept .comma then
        let (items, close) ← listUntil bound closing
        return (item.node :: items, close)
      else
        let close ← expect closing
        return ([item.node], close)) (fun _ => True) cost (following :: behind) after) :
    Accepts (listUntil · closing) (fun _ => True) (cost + 1) (front ++ following :: behind)
      after := by
  have accepts := Accepts.bind ((accepts_whole accepted ends behind).mono enough)
    fun item _ => acceptsRest item
  obtain ⟨token, back, rfl, begins⟩ := derived.begins nofun
  have other : token.kind ≠ closing := by
    intro closed
    rw [closed] at begins
    rcases closes with rfl | rfl <;> cases begins
  exact Accepts.of_call (fun bound script => listUntil_item other bound) accepts

theorem accepted_items {bound : Nat} {row : List Token}
    (shorter : ∀ symbol row, row.length < bound → ExpressionSymbol.Derives symbol row →
      Accepted symbol row)
    (short : row.length ≤ bound) (derived : ExpressionSymbol.items.Derives row) :
    Accepted .items row := by
  intro closing close rest closes same more
  cases derived with
  | last derived =>
      have ends : close.kind.leftPower = 0 := by
        rw [same]
        rcases closes with rfl | rfl <;> rfl
      have noComma : close.kind ≠ .comma := by
        rw [same]
        rcases closes with rfl | rfl <;> decide
      refine accepts_item closes derived (accepted_whole shorter short derived) ends
        (Nat.le_refl _) fun item => ?_
      have closed : Accepts (fun _ => do
          let close ← expect closing
          return ([item.node], close)) (fun _ => True) (4 * row.length) (close :: rest) rest := by
        apply Accepts.bind (accepts_expect same more)
        intro token _
        exact accepts_pure trivial
      exact Accepts.of_step (fun _ script => accept_reading_other noComma _ _ rest script) closed
  | @more front others comma derived commaKind othersDerived =>
      simp only [List.length_append, List.length_cons] at short ⊢
      have ends : comma.kind.leftPower = 0 := by
        rw [commaKind]
        rfl
      have others_accepted := shorter .items others (by omega) othersDerived
      rw [List.append_assoc]
      refine accepts_item closes derived (shorter .whole front (by omega) derived) ends
        (by omega) fun item => ?_
      have listed : Accepts (fun bound => do
          let (items, close) ← listUntil bound closing
          return (item.node :: items, close)) (fun _ => True)
          (4 * (front.length + (others.length + 1))) (others ++ close :: rest) rest := by
        apply Accepts.bind ((others_accepted closing close rest closes same more).mono (by omega))
        intro items _
        exact accepts_pure trivial
      exact Accepts.of_step (fun _ script => accept_reading commaKind (by simp) _ _ script) listed

theorem accepted_list {bound : Nat} {row : List Token}
    (shorter : ∀ symbol row, row.length < bound → ExpressionSymbol.Derives symbol row →
      Accepted symbol row)
    (short : row.length ≤ bound) (derived : ExpressionSymbol.list.Derives row) :
    Accepted .list row := by
  intro closing close rest closes same more
  cases derived with
  | nothing =>
      have closed : Accepts (fun _ => pure ([], close)) (fun _ : List ExpressionRef × Token => True)
          0 rest rest := accepts_pure trivial
      refine Accepts.of_call (fun bound script => ?_) closed
      rw [listUntil, List.nil_append, bind_of_ok (accept?_reading same more script)]
  | items derived => exact accepted_items shorter short derived closing close rest closes same more

end Parse

open Parse

theorem ExpressionSymbol.Derives.accepted {symbol : ExpressionSymbol} {row : List Token}
    (derived : symbol.Derives row) : Accepted symbol row := by
  induction length : row.length using Nat.strong_induction_on generalizing symbol row with
  | _ length ih =>
  -- Not an induction on the derivation: what an operand leaves is derived in no part of it.
  have shorter (symbol : ExpressionSymbol) (other : List Token) (less : other.length < row.length)
      (derived : symbol.Derives other) : Accepted symbol other :=
    ih other.length (length ▸ less) derived rfl
  cases symbol with
  | target => exact accepted_target shorter (Nat.le_refl _) derived
  | applied => exact accepted_applied shorter (Nat.le_refl _) derived
  | whole => exact accepted_whole shorter (Nat.le_refl _) derived
  | items => exact accepted_items shorter (Nat.le_refl _) derived
  | list => exact accepted_list shorter (Nat.le_refl _) derived

namespace Parse

variable {following : Token} {rest : List Token}

theorem accepts_expression {row : List Token} (derived : ExpressionSymbol.whole.Derives row)
    (ends : following.kind.leftPower = 0) (rest : List Token) :
    Accepts expression (fun _ => True) (4 * row.length) (row ++ following :: rest)
      (following :: rest) :=
  accepts_whole derived.accepted ends rest

theorem accepts_target {row : List Token} (derived : ExpressionSymbol.target.Derives row)
    (ends : following.kind.leftPower = 0) (rest : List Token) :
    Accepts expression (fun left => left.target.isSome = true) (4 * row.length)
      (row ++ following :: rest) (following :: rest) :=
  (derived.accepted 0 (following :: rest) (Nat.zero_le _) (List.cons_ne_nil _ _)).stops ends

end Parse

end ScriptEngine
