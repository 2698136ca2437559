import ScriptEngine.Proofs.Grammar.Growth
import ScriptEngine.Proofs.Grammar.RoundTrip
import ScriptEngine.Proofs.Grammar.StatementPrinting

/-!
# Reading printed statements without blocks

The words of a simple statement are read as the statement, up to the token that ends
it. An expression on its own and an assignment begin alike; which of the two it is shows
only behind the expression, which must then be one that can be written to.
-/

set_option autoImplicit false

namespace ScriptEngine

/-!
## What has been read
-/

/-- The node spells the term. -/
def Term.At (script : Script) (term : Term) (node : ExpressionRef) : Prop :=
  ∃ tree : ExpressionTree, tree.At script node ∧ tree.term = term

/-- The nodes spell the terms. -/
def Term.AllAt (script : Script) (terms : List Term) (nodes : List ExpressionRef) : Prop :=
  ∃ trees, ExpressionTree.AllAt script trees nodes script.expressions.size ∧
    ExpressionTree.terms trees = terms

/-- The target of an assignment spells the term. -/
def TargetTerm.At (script : Script) : TargetTerm → AssignTarget → Prop
  | .name identifier, written => written = .name identifier
  | .member object identifier, written =>
      ∃ node, written = .member node identifier ∧ object.At script node
  | .element object index, written =>
      ∃ node position, written = .element node position ∧ object.At script node ∧
        index.At script position

/-- A statement that spells the term is laid out with its bodies, and nothing follows it
yet. -/
def StatementTerm.Laid (term : StatementTerm) (script : Script) (this : StatementRef)
    (start stop : Nat) : Prop :=
  (∃ tree : StatementTree, tree.Laid script start this ∧ tree.term = term) ∧
    script.next this = none ∧ this.index + 1 = stop

theorem Term.At.grow {old new : Script} {term : Term} {node : ExpressionRef}
    (spelled : term.At old node) (grown : old.Extends new) : term.At new node := by
  obtain ⟨tree, treeAt, same⟩ := spelled
  exact ⟨tree, treeAt.grow grown.expressions, same⟩

theorem Term.allAt_nil (script : Script) : Term.AllAt script [] [] :=
  ⟨[], trivial, rfl⟩

theorem Term.At.cons {script : Script} {term : Term} {node : ExpressionRef} {terms : List Term}
    {nodes : List ExpressionRef} (spelled : term.At script node)
    (others : Term.AllAt script terms nodes) : Term.AllAt script (term :: terms) (node :: nodes) := by
  obtain ⟨tree, treeAt, rfl⟩ := spelled
  obtain ⟨trees, treesAt, rfl⟩ := others
  exact ⟨tree :: trees, ⟨⟨treeAt.present, treeAt⟩, treesAt⟩, rfl⟩

theorem TargetTerm.At.grow {old new : Script} {target : TargetTerm} {written : AssignTarget}
    (spelled : target.At old written) (grown : old.Extends new) : target.At new written := by
  cases target with
  | name => exact spelled
  | member object identifier =>
      obtain ⟨node, same, objectAt⟩ := spelled
      exact ⟨node, same, objectAt.grow grown⟩
  | element object index =>
      obtain ⟨node, position, same, objectAt, indexAt⟩ := spelled
      exact ⟨node, position, same, objectAt.grow grown, indexAt.grow grown⟩

namespace Parse

variable {tokens rest : List Token} {following : Token} {script : Script}

/-- A statement that is pushed is laid out behind its bodies. -/
theorem reads_pushStatement {node : Statement} {tree : StatementTree} {term : StatementTerm}
    {start cost : Nat} (built : tree.BuiltFrom script start script.statements.size node)
    (same : tree.term = term) :
    Reads (fun _ => pushStatement node)
      (fun final this _ stop => term.Laid final this start stop) cost tokens tokens script := by
  refine ⟨_, _, script.extends_pushStatement node, ⟨⟨tree, built.push, same⟩, ?_, ?_⟩,
    fun _ _ => rfl⟩
  · simp [Script.next, Script.pushStatement]
  · simp [Script.pushStatement]

/-- Reading an expression adds no statement. -/
private theorem statements_of_expression {parsed : ParsedExpression} {grown : Script} {bound : Nat}
    {after : List Token}
    (read : expression bound (.reading tokens script) = .ok (parsed, .reading after grown)) :
    script.statements.size = grown.statements.size := by
  obtain ⟨grownBy, _⟩ := roots_expression bound _ _ _ read trivial
  exact congrArg Array.size grownBy.statements.symm

/-- The words of an expression are read as its term where nothing continues it. -/
theorem reads_expression {term : Term} {words : List Word}
    (printed : Printed 0 term words) (spelled : tokens.map Token.word = words)
    (ends : following.kind.leftPower = 0) (rest : List Token) (script : Script) :
    Reads expression (fun grown parsed start stop => start = stop ∧ term.At grown parsed.node)
      (4 * tokens.length) (tokens ++ following :: rest) (following :: rest) script := by
  obtain ⟨parsed, grown, tree, extended, treeAt, same, reads⟩ :=
    (printed.leads spelled (Nat.le_of_eq ends) script (Nat.le_refl 0)).stops (.inl ends)
  have read := reads _ (Nat.lt_succ_self _)
  exact ⟨parsed, grown, extended, ⟨statements_of_expression read, tree, treeAt, same⟩, reads⟩

/-!
## Targets
-/

/-- The expression can be written to, and its target spells the term. -/
def TargetRead (target : TargetTerm) (script : Script) (parsed : ParsedExpression)
    (start stop : Nat) : Prop :=
  start = stop ∧ ∃ written, parsed.target = some written ∧ target.At script written

private theorem reads_suffixed {token : Token} {suffix : List Token} {object : Term}
    {target : TargetTerm}
    (leads : Leads 0 tokens (token :: (suffix ++ following :: rest)) script object)
    (opens : token.kind.leftPower = suffixPower) (ends : following.kind.leftPower = 0)
    (reads : ∀ (left : ParsedExpression) (grown : Script), object.At grown left.node →
      ∃ whole final, grown.Extends final ∧
        (∃ written, whole.target = some written ∧ target.At final written) ∧
          ∀ bound, 4 * suffix.length < bound →
            suffixOf (bound + 1) left (.reading (token :: (suffix ++ following :: rest)) grown) =
              .ok (whole, .reading (following :: rest) final)) :
    Reads expression (TargetRead target) (4 * (tokens ++ token :: suffix).length)
      (tokens ++ token :: suffix ++ following :: rest) (following :: rest) script := by
  obtain ⟨left, grown, tree, extended, treeAt, same, leads⟩ := leads
  obtain ⟨whole, final, later, targetAt, reads⟩ := reads left grown ⟨tree, treeAt, same⟩
  have read (bound : Nat) (enough : 4 * (tokens ++ token :: suffix).length < bound) :
      expression bound (.reading (tokens ++ token :: suffix ++ following :: rest) script) =
        .ok (whole, .reading (following :: rest) final) := by
    simp only [List.length_append, List.length_cons] at enough
    obtain ⟨further, few, begun⟩ := leads bound (by omega)
    obtain ⟨more, rfl⟩ : ∃ more, further = more + 2 := ⟨further - 2, by omega⟩
    rw [List.append_assoc, List.cons_append, expression, begun,
      continued_suffix opens (Nat.zero_le _), bind_of_ok (reads more (by omega)),
      continued_stops (.inl ends)]
  exact ⟨whole, final, extended.trans later,
    ⟨statements_of_expression (read _ (Nat.lt_succ_self _)), targetAt⟩, read⟩

theorem reads_target {target : TargetTerm} {words : List Word}
    (printed : TargetPrinted target words) (spelled : tokens.map Token.word = words)
    (ends : following.kind.leftPower = 0) (rest : List Token) (script : Script) :
    Reads expression (TargetRead target) (4 * tokens.length) (tokens ++ following :: rest)
      (following :: rest) script := by
  cases printed with
  | name isName =>
      obtain ⟨token, rfl, same⟩ := List.map_eq_singleton_iff.mp spelled
      obtain rfl : token.lexeme = _ := congrArg Word.lexeme same
      have kind : token.kind = .identifier := congrArg Word.kind same
      let pushed := script.pushExpression (.name token.lexeme token.span)
      refine ⟨⟨pushed.1, token.span, some (.name token.lexeme)⟩, pushed.2,
        script.extends_pushExpression _, ⟨rfl, _, rfl, rfl⟩, fun bound enough => ?_⟩
      simp only [List.length_singleton] at enough
      obtain ⟨bound, rfl⟩ : ∃ fewer, bound = fewer + 2 := ⟨bound - 2, by omega⟩
      have read : operand (bound + 1) (.reading (token :: following :: rest) script) =
          .ok (⟨pushed.1, token.span, some (.name token.lexeme)⟩,
            .reading (following :: rest) pushed.2) := by
        rw [operand, bind_of_ok (next_reading token (by simp) script), kind]
        rfl
      rw [List.singleton_append, expression, expressionFrom, bind_of_ok read,
        continued_stops (.inl ends)]
  | member object isName =>
      obtain ⟨front, back, rfl, frontSpelled, backSpelled⟩ := List.map_eq_append_iff.mp spelled
      obtain ⟨dot, back, rfl, isDot, nameSpelled⟩ := List.map_eq_cons_iff.mp backSpelled
      obtain ⟨token, rfl, same⟩ := List.map_eq_singleton_iff.mp nameSpelled
      obtain rfl : token.lexeme = _ := congrArg Word.lexeme same
      have dotKind : dot.kind = .dot := congrArg Word.kind isDot
      have opens : dot.kind.leftPower = suffixPower := by
        rw [dotKind]
        rfl
      refine reads_suffixed (object.leads frontSpelled (Nat.le_of_eq opens) script
        (Nat.zero_le _)) opens ends ?_
      intro left grown objectAt
      obtain ⟨whole, final, extended, written, _, reads⟩ :=
        suffixOf_member dotKind (congrArg Word.kind same) (List.cons_ne_nil following rest) left
      exact ⟨whole, final, extended, ⟨_, written, left.node, rfl, objectAt.grow extended⟩,
        fun bound _ => reads bound⟩
  | element object index =>
      obtain ⟨front, opened, inner, close, rfl, frontSpelled, isOpen, innerSpelled, isClose⟩ :=
        Token.exists_suffixed spelled
      have openKind : opened.kind = .leftBracket := congrArg Word.kind isOpen
      have closeKind : close.kind = .rightBracket := congrArg Word.kind isClose
      have opens : opened.kind.leftPower = suffixPower := by
        rw [openKind]
        rfl
      have closes : close.kind.leftPower = 0 := by
        rw [closeKind]
        rfl
      refine reads_suffixed (object.leads frontSpelled (Nat.le_of_eq opens) script
        (Nat.zero_le _)) opens ends ?_
      intro left grown objectAt
      obtain ⟨whole, position, final, extended, written, indexAt, _, reads⟩ :=
        suffixOf_element openKind closeKind (List.cons_ne_nil following rest)
          (index.leads innerSpelled (Nat.le_of_eq closes) grown (Nat.le_refl 0)) left
      refine ⟨whole, final, extended,
        ⟨_, written, left.node, position, rfl, objectAt.grow extended, indexAt⟩,
        fun bound enough => ?_⟩
      simp only [List.length_append, List.length_singleton] at enough
      rw [List.append_assoc, List.singleton_append]
      exact reads bound (by omega)

/-!
## Simple statements
-/

theorem noPower_of_mem_terminators {kind : TokenKind} (ends : kind ∈ terminators) :
    kind.leftPower = 0 := by
  revert kind
  decide

theorem assignOperator?_terminators {kind : TokenKind} (ends : kind ∈ terminators) :
    assignOperator? kind = none := by
  revert kind
  decide

theorem simpleStatement_begins {token : Token} (begins : token.kind.beginsOperand = true)
    (bound : Nat) (rest : List Token) (script : Script) :
    simpleStatement bound (.reading (token :: rest) script) =
      assignmentOrExpression bound (.reading (token :: rest) script) := by
  rw [simpleStatement, bind_of_ok (peek_reading ..)]
  generalize token.kind = kind at begins
  split
  case h_7 => rfl
  all_goals cases begins

theorem begins_of_spelled {kinds : TokenKind → Bool} {words : List Word}
    (begins : Word.BeginWith kinds words) (spelled : tokens.map Token.word = words) :
    ∃ token back, tokens = token :: back ∧ kinds token.kind = true := by
  obtain ⟨first, others, rfl, begins⟩ := begins
  obtain ⟨token, back, rfl, rfl, _⟩ := List.map_eq_cons_iff.mp spelled
  exact ⟨token, back, rfl, begins⟩

private theorem reads_expressionAlone {value : Term} {words : List Word}
    (printed : Printed 0 value words) (spelled : tokens.map Token.word = words)
    (ends : following.kind ∈ terminators) :
    Reads assignmentOrExpression (StatementTerm.expression value).Laid (4 * tokens.length)
      (tokens ++ following :: rest) (following :: rest) script := by
  refine Reads.bind (reads_expression printed spelled (noPower_of_mem_terminators ends) rest script)
    ?_
  rintro left grown extended ⟨same, tree, treeAt, rfl⟩
  have built : StatementTree.BuiltFrom grown script.statements.size grown.statements.size
      (.expression tree) (.expression left.node) := ⟨left.node, rfl, treeAt, same⟩
  refine Reads.of_step (fun _ => ?_) (reads_pushStatement built rfl)
  rw [bind_of_ok (peek_reading ..), assignOperator?_terminators ends]

theorem assignOperator?_word (operator : AssignOperator) :
    assignOperator? operator.word.kind = some operator ∧ operator.word.kind.leftPower = 0 := by
  cases operator <;> exact ⟨rfl, rfl⟩

private theorem exists_built_assign {target : TargetTerm} {written : AssignTarget} {value : Term}
    {node : ExpressionRef} (targetAt : target.At script written) (valueAt : value.At script node)
    (operator : AssignOperator) (span : Span) :
    ∃ tree : StatementTree, tree.term = .assign target operator value ∧
      tree.BuiltFrom script script.statements.size script.statements.size
        (.assign written operator node span) := by
  obtain ⟨valueTree, valueAt, rfl⟩ := valueAt
  cases target with
  | name identifier =>
      obtain rfl := targetAt
      exact ⟨.assignName identifier operator valueTree span, rfl, node, rfl, valueAt, rfl⟩
  | member object identifier =>
      obtain ⟨inner, rfl, tree, objectAt, rfl⟩ := targetAt
      exact ⟨.assignMember tree identifier operator valueTree span, rfl, inner, node, rfl,
        objectAt, valueAt, rfl⟩
  | element object index =>
      obtain ⟨inner, position, rfl, ⟨tree, objectAt, rfl⟩, indexTree, indexAt, rfl⟩ := targetAt
      exact ⟨.assignElement tree indexTree operator valueTree span, rfl, inner, position, node,
        rfl, objectAt, indexAt, valueAt, rfl⟩

private theorem reads_assignment {target : TargetTerm} {operator : AssignOperator} {value : Term}
    {targetWords words : List Word} (targetPrinted : TargetPrinted target targetWords)
    (printed : Printed 0 value words)
    (spelled : tokens.map Token.word = targetWords ++ operator.word :: words)
    (ends : following.kind ∈ terminators) :
    Reads assignmentOrExpression (StatementTerm.assign target operator value).Laid
      (4 * tokens.length) (tokens ++ following :: rest) (following :: rest) script := by
  obtain ⟨front, behind, rfl, frontSpelled, behindSpelled⟩ := List.map_eq_append_iff.mp spelled
  obtain ⟨token, back, rfl, isOperator, backSpelled⟩ := List.map_eq_cons_iff.mp behindSpelled
  have kind : token.kind = operator.word.kind := congrArg Word.kind isOperator
  obtain ⟨isAssign, noPower⟩ := assignOperator?_word operator
  rw [← kind] at isAssign noPower
  rw [List.append_assoc, List.cons_append, List.length_append, List.length_cons]
  refine Reads.bind ((reads_target targetPrinted frontSpelled noPower _ script).mono (by omega)) ?_
  rintro left grown extended ⟨same, written, isTarget, targetAt⟩
  have reads : Reads (fun bound => do
      let value ← expression bound
      pushStatement (.assign written operator value.node (left.span.merge value.span)))
      (fun final this _ stop => (StatementTerm.assign target operator value).Laid final this
        script.statements.size stop)
      (4 * (front.length + (back.length + 1))) (back ++ following :: rest) (following :: rest)
      grown := by
    refine Reads.bind ((reads_expression printed backSpelled (noPower_of_mem_terminators ends) rest
      grown).mono (by omega)) ?_
    rintro parsed final later ⟨still, valueAt⟩
    obtain ⟨tree, sameTerm, built⟩ := exists_built_assign (targetAt.grow later) valueAt operator
      (left.span.merge parsed.span)
    rw [same, still]
    exact reads_pushStatement built sameTerm
  refine Reads.of_step (fun bound => ?_) reads
  rw [bind_of_ok (peek_reading ..), isAssign]
  dsimp only
  rw [bind_of_ok (skip_reading token (by simp) grown), isTarget]

/-!
## Lists of printed expressions
-/

/-- The nodes spell the terms, and no statement has been added. -/
def TermsRead (terms : List Term) (script : Script) (nodes : List ExpressionRef)
    (start stop : Nat) : Prop :=
  start = stop ∧ Term.AllAt script terms nodes

theorem separated_cons (row : List Word) (rows : List (List Word)) :
    Word.separated (row :: rows) = row ++ rows.flatMap (Word.comma :: ·) := by
  induction rows generalizing row with
  | nil => simp [Word.separated]
  | cons next rows ih =>
      have rest := ih next
      simp only [Word.separated, List.intercalate_cons_cons, List.flatMap_cons] at rest ⊢
      rw [rest]
      simp

private theorem noPower_behind {rows : List (List Word)}
    (spelled : tokens.map Token.word = rows.flatMap (Word.comma :: ·))
    (noPower : following.kind.leftPower = 0) (rest : List Token) :
    ∃ next more, tokens ++ following :: rest = next :: more ∧ next.kind.leftPower = 0 := by
  cases rows with
  | nil =>
      obtain rfl : tokens = [] := List.map_eq_nil_iff.mp spelled
      exact ⟨following, rest, rfl, noPower⟩
  | cons row rows =>
      obtain ⟨comma, others, rfl, isComma, _⟩ := List.map_eq_cons_iff.mp spelled
      have kind : comma.kind = .comma := congrArg Word.kind isComma
      refine ⟨comma, _, rfl, ?_⟩
      rw [kind]
      rfl

variable {α : Type}

/-- An expression and the rest of the list are read one after the other. -/
private theorem Reads.of_values (production : List ExpressionRef → Nat → Parse α) {value : Term}
    {words : List Word} {values : List Term} {rows : List (List Word)}
    (printed : Printed 0 value words) {front back : List Token}
    (frontSpelled : front.map Token.word = words)
    (backSpelled : back.map Token.word = rows.flatMap (Word.comma :: ·))
    (noPower : following.kind.leftPower = 0) {cost : Nat}
    (enough : 4 * (front.length + back.length) ≤ cost)
    (readsRest : ∀ script, Reads printedRest (TermsRead values) (4 * back.length)
      (back ++ following :: rest) (following :: rest) script)
    {laid : Script → α → Nat → Nat → Prop}
    (reads : ∀ nodes grown, script.Extends grown →
      TermsRead (value :: values) grown nodes script.statements.size grown.statements.size →
      Reads (production nodes) (fun final result _ stop => laid final result
        script.statements.size stop) cost (following :: rest) (following :: rest) grown) :
    Reads (fun bound => do
      let value ← expression bound
      let others ← printedRest bound
      production (value.node :: others) bound) laid cost (front ++ (back ++ following :: rest))
      (following :: rest) script := by
  obtain ⟨next, more, behind, nextPower⟩ := noPower_behind backSpelled noPower rest
  rw [behind]
  refine Reads.bind ((reads_expression printed frontSpelled nextPower more script).mono
    (by omega)) ?_
  rintro parsed middle extended ⟨same, valueAt⟩
  rw [← behind]
  refine Reads.bind ((readsRest middle).mono (by omega)) ?_
  rintro nodes grown later ⟨still, othersAt⟩
  exact reads (parsed.node :: nodes) grown (extended.trans later)
    ⟨same.trans still, (valueAt.grow later).cons othersAt⟩

private theorem reads_printedRest {values : List (Term × List Word)}
    (printed : ∀ value ∈ values, Printed 0 value.1 value.2)
    (spelled : tokens.map Token.word = (values.map Prod.snd).flatMap (Word.comma :: ·))
    (ends : following.kind ∈ terminators) (rest : List Token) (script : Script) :
    Reads printedRest (TermsRead (values.map Prod.fst)) (4 * tokens.length)
      (tokens ++ following :: rest) (following :: rest) script := by
  have noPower := noPower_of_mem_terminators ends
  have noComma : following.kind ≠ .comma := by
    intro same
    rw [same] at ends
    exact absurd ends (by decide)
  induction values generalizing tokens script with
  | nil =>
      obtain rfl : tokens = [] := List.map_eq_nil_iff.mp spelled
      refine ⟨[], script, .refl script, ⟨rfl, Term.allAt_nil script⟩, fun bound enough => ?_⟩
      obtain ⟨bound, rfl⟩ : ∃ fewer, bound = fewer + 1 := ⟨bound - 1, by simp at enough; omega⟩
      rw [printedRest, List.nil_append, accept_reading_other noComma]
      rfl
  | cons value values ih =>
      rw [List.map_cons, List.flatMap_cons, List.cons_append] at spelled
      obtain ⟨comma, others, rfl, isComma, othersSpelled⟩ := List.map_eq_cons_iff.mp spelled
      obtain ⟨front, back, rfl, frontSpelled, backSpelled⟩ :=
        List.map_eq_append_iff.mp othersSpelled
      have commaKind : comma.kind = .comma := congrArg Word.kind isComma
      have restReads := ih (fun other member => printed other (List.mem_cons_of_mem _ member))
        backSpelled
      have reads : Reads (fun bound => do
          let value ← expression bound
          let others ← printedRest bound
          return value.node :: others)
          (TermsRead ((value :: values).map Prod.fst)) (4 * (front.length + back.length) + 3)
          (front ++ (back ++ following :: rest)) (following :: rest) script :=
        Reads.of_values (fun nodes _ => pure nodes) (printed value List.mem_cons_self)
          frontSpelled backSpelled noPower
          (Nat.le_add_right _ 3) restReads fun nodes grown _ nodesRead =>
            ⟨nodes, grown, .refl grown, nodesRead, fun _ _ => rfl⟩
      have cost : 4 * (front.length + back.length) + 3 + 1 =
          4 * (comma :: (front ++ back)).length := by
        simp only [List.length_cons, List.length_append]
        omega
      rw [← cost, List.cons_append, List.append_assoc]
      refine Reads.of_call (fun bound => ?_) reads
      rw [printedRest, accept_reading commaKind (by simp)]

/-!
## Statements that begin with a keyword
-/

theorem not_terminator_of_begins {kind : TokenKind} (begins : kind.beginsOperand = true) :
    kind ∉ terminators := by
  intro ends
  revert begins
  revert kind
  decide

theorem reads_print {token : Token} (kind : token.kind = .printWord)
    {values : List (Term × List Word)} (printed : ∀ value ∈ values, Printed 0 value.1 value.2)
    (spelled : tokens.map Token.word = Word.separated (values.map Prod.snd))
    (ends : following.kind ∈ terminators) :
    Reads simpleStatement (StatementTerm.print (values.map Prod.fst)).Laid
      (4 * (token :: tokens).length) (token :: (tokens ++ following :: rest)) (following :: rest)
      script := by
  cases values with
  | nil =>
      obtain rfl : tokens = [] := List.map_eq_nil_iff.mp spelled
      have built : StatementTree.BuiltFrom script script.statements.size script.statements.size
          (.print []) (.print []) := ⟨[], rfl, trivial, rfl⟩
      refine Reads.of_step (fun _ => ?_) (reads_pushStatement built rfl)
      rw [simpleStatement, bind_of_ok (peek_reading ..), kind]
      dsimp only
      rw [List.nil_append, bind_of_ok (skip_reading token (by simp) script),
        bind_of_ok (atTerminator_reading rest script), decide_eq_true ends]
      rfl
  | cons value values =>
      rw [List.map_cons, separated_cons] at spelled
      obtain ⟨front, back, rfl, frontSpelled, backSpelled⟩ := List.map_eq_append_iff.mp spelled
      have valuePrinted := printed value List.mem_cons_self
      obtain ⟨first, behind, same, begins⟩ := begins_of_spelled valuePrinted.begins frontSpelled
      have restReads := reads_printedRest
        (fun other member => printed other (List.mem_cons_of_mem _ member)) backSpelled ends rest
      have reads : Reads (fun bound => do
          let value ← expression bound
          let others ← printedRest bound
          pushStatement (.print (value.node :: others)))
          (StatementTerm.print ((value :: values).map Prod.fst)).Laid
          (4 * (token :: (front ++ back)).length) (front ++ (back ++ following :: rest))
          (following :: rest) script := by
        refine Reads.of_values (fun nodes _ => pushStatement (.print nodes)) valuePrinted
          frontSpelled backSpelled (noPower_of_mem_terminators ends) (by simp) restReads ?_
        rintro nodes grown _ ⟨same, trees, treesAt, sameTerms⟩
        have built : StatementTree.BuiltFrom grown script.statements.size grown.statements.size
            (.print trees) (.print nodes) := ⟨nodes, rfl, treesAt, same⟩
        exact reads_pushStatement built (congrArg StatementTerm.print sameTerms)
      rw [List.append_assoc]
      refine Reads.of_step (fun bound => ?_) reads
      rw [simpleStatement, bind_of_ok (peek_reading ..), kind]
      dsimp only
      rw [bind_of_ok (skip_reading token (by simp) script), same, List.cons_append,
        bind_of_ok (atTerminator_reading _ script),
        decide_eq_false (not_terminator_of_begins begins)]
      rfl

theorem count?_digits {token : Token} {digits : List Char}
    (spelled : token.lexeme = String.ofList digits) (all : digits.all Char.isDigit = true)
    (small : DecimalText.digitsValue digits < UInt64.size) :
    token.count? = some (DecimalText.digitsValue digits) := by
  rw [Token.count?, spelled, String.toList_ofList, if_pos all]
  exact if_pos small

theorem reads_breakLoops {token : Token} (kind : token.kind = .breakWord)
    {digits : List Char} (all : digits.all Char.isDigit = true)
    (small : DecimalText.digitsValue digits < UInt64.size) {number : Token}
    (isNumber : number.word = .number digits) :
    Reads simpleStatement (StatementTerm.breakLoops (DecimalText.digitsValue digits)).Laid
      (4 * [token, number].length) (token :: number :: following :: rest) (following :: rest)
      script := by
  have counted := count?_digits (congrArg Word.lexeme isNumber) all small
  have numberKind : number.kind = .number := congrArg Word.kind isNumber
  have built : StatementTree.BuiltFrom script script.statements.size script.statements.size
      (.breakLoops (DecimalText.digitsValue digits) (token.span.merge number.span))
      (.breakLoops (DecimalText.digitsValue digits) (token.span.merge number.span)) := ⟨rfl, rfl⟩
  refine Reads.of_step (fun _ => ?_) (reads_pushStatement built rfl)
  rw [simpleStatement, bind_of_ok (peek_reading ..), kind]
  dsimp only
  rw [bind_of_ok (skip_reading token (by simp) script),
    bind_of_ok (accept?_reading numberKind (by simp) script)]
  dsimp only
  rw [counted]

theorem reads_breakLoop {token : Token} (kind : token.kind = .breakWord)
    (ends : following.kind ∈ terminators) :
    Reads simpleStatement (StatementTerm.breakLoops 1).Laid (4 * [token].length)
      (token :: following :: rest) (following :: rest) script := by
  have noNumber : following.kind ≠ .number := by
    intro same
    rw [same] at ends
    exact absurd ends (by decide)
  have built : StatementTree.BuiltFrom script script.statements.size script.statements.size
      (.breakLoops 1 token.span) (.breakLoops 1 token.span) := ⟨rfl, rfl⟩
  refine Reads.of_step (fun _ => ?_) (reads_pushStatement built rfl)
  rw [simpleStatement, bind_of_ok (peek_reading ..), kind]
  dsimp only
  rw [bind_of_ok (skip_reading token (by simp) script),
    bind_of_ok (accept?_reading_other noNumber rest script)]

theorem reads_continueLoop {token : Token} (kind : token.kind = .continueWord) :
    Reads simpleStatement StatementTerm.continueLoop.Laid (4 * [token].length)
      (token :: following :: rest) (following :: rest) script := by
  have built : StatementTree.BuiltFrom script script.statements.size script.statements.size
      (.continueLoop token.span) (.continueLoop token.span) := ⟨rfl, rfl⟩
  refine Reads.of_step (fun _ => ?_) (reads_pushStatement built rfl)
  rw [simpleStatement, bind_of_ok (peek_reading ..), kind]
  dsimp only
  rw [bind_of_ok (skip_reading token (by simp) script)]

theorem reads_pass {token : Token} (kind : token.kind = .passWord) :
    Reads simpleStatement StatementTerm.pass.Laid (4 * [token].length)
      (token :: following :: rest) (following :: rest) script := by
  have built : StatementTree.BuiltFrom script script.statements.size script.statements.size
      .pass .pass := ⟨rfl, rfl⟩
  refine Reads.of_step (fun _ => ?_) (reads_pushStatement built rfl)
  rw [simpleStatement, bind_of_ok (peek_reading ..), kind]
  dsimp only
  rw [bind_of_ok (skip_reading token (by simp) script)]

theorem reads_returnNothing {token : Token} (kind : token.kind = .returnWord)
    (ends : following.kind ∈ terminators) :
    Reads simpleStatement (StatementTerm.returnValue none).Laid (4 * [token].length)
      (token :: following :: rest) (following :: rest) script := by
  have built : StatementTree.BuiltFrom script script.statements.size script.statements.size
      (.returnValue none) (.returnValue none) := ⟨rfl, rfl⟩
  refine Reads.of_step (fun _ => ?_) (reads_pushStatement built rfl)
  rw [simpleStatement, bind_of_ok (peek_reading ..), kind]
  dsimp only
  rw [bind_of_ok (skip_reading token (by simp) script),
    bind_of_ok (atTerminator_reading rest script), decide_eq_true ends]
  rfl

private theorem reads_returnValue {token : Token} (kind : token.kind = .returnWord) {value : Term}
    {words : List Word} (printed : Printed 0 value words)
    (spelled : tokens.map Token.word = words) (ends : following.kind ∈ terminators) :
    Reads simpleStatement (StatementTerm.returnValue (some value)).Laid
      (4 * (token :: tokens).length) (token :: (tokens ++ following :: rest)) (following :: rest)
      script := by
  obtain ⟨first, behind, same, begins⟩ := begins_of_spelled printed.begins spelled
  have reads : Reads (fun bound => do
      let value ← expression bound
      pushStatement (.returnValue (some value.node)))
      (StatementTerm.returnValue (some value)).Laid (4 * (token :: tokens).length)
      (tokens ++ following :: rest) (following :: rest) script := by
    refine Reads.bind ((reads_expression printed spelled (noPower_of_mem_terminators ends) rest
      script).mono (by simp)) ?_
    rintro parsed grown _ ⟨same, tree, treeAt, rfl⟩
    have built : StatementTree.BuiltFrom grown script.statements.size grown.statements.size
        (.returnValue (some tree)) (.returnValue (some parsed.node)) :=
      ⟨parsed.node, rfl, treeAt, same⟩
    exact reads_pushStatement built rfl
  refine Reads.of_step (fun bound => ?_) reads
  rw [simpleStatement, bind_of_ok (peek_reading ..), kind]
  dsimp only
  rw [bind_of_ok (skip_reading token (by simp) script), same, List.cons_append,
    bind_of_ok (atTerminator_reading _ script),
    decide_eq_false (not_terminator_of_begins begins)]
  rfl

theorem reads_delete {token name : Token} (kind : token.kind = .delWord)
    (nameKind : name.kind = .identifier) :
    Reads simpleStatement (StatementTerm.delete name.lexeme).Laid (4 * [token, name].length)
      (token :: name :: following :: rest) (following :: rest) script := by
  have built : StatementTree.BuiltFrom script script.statements.size script.statements.size
      (.delete name.lexeme (token.span.merge name.span))
      (.delete name.lexeme (token.span.merge name.span)) := ⟨rfl, rfl⟩
  refine Reads.of_step (fun _ => ?_) (reads_pushStatement built rfl)
  rw [simpleStatement, bind_of_ok (peek_reading ..), kind]
  dsimp only
  rw [bind_of_ok (skip_reading token (by simp) script),
    bind_of_ok (name_reading nameKind (by simp) script)]

/-- The words of a statement without blocks are read as the statement, up to the token
that ends it. -/
theorem reads_simpleStatement {term : StatementTerm} {words : List Word}
    (printed : SimplePrinted term words) (spelled : tokens.map Token.word = words)
    (ends : following.kind ∈ terminators) (rest : List Token) (script : Script) :
    Reads simpleStatement term.Laid (4 * tokens.length) (tokens ++ following :: rest)
      (following :: rest) script := by
  cases printed with
  | expression printed =>
      obtain ⟨token, back, rfl, begins⟩ := begins_of_spelled printed.begins spelled
      exact Reads.of_step (simpleStatement_begins begins · _ script)
        (reads_expressionAlone printed spelled ends)
  | print printed =>
      obtain ⟨token, others, rfl, isPrint, othersSpelled⟩ := List.map_eq_cons_iff.mp spelled
      exact reads_print (congrArg Word.kind isPrint) printed othersSpelled ends
  | assign target printed =>
      obtain ⟨token, back, rfl, begins⟩ := begins_of_spelled (target.begins.append _) spelled
      exact Reads.of_step (simpleStatement_begins begins · _ script)
        (reads_assignment target printed spelled ends)
  | breakLoop =>
      obtain ⟨token, rfl, isBreak⟩ := List.map_eq_singleton_iff.mp spelled
      exact reads_breakLoop (congrArg Word.kind isBreak) ends
  | breakLoops _ all small =>
      obtain ⟨token, others, rfl, isBreak, numberSpelled⟩ := List.map_eq_cons_iff.mp spelled
      obtain ⟨number, rfl, isNumber⟩ := List.map_eq_singleton_iff.mp numberSpelled
      exact reads_breakLoops (congrArg Word.kind isBreak) all small isNumber
  | continueLoop =>
      obtain ⟨token, rfl, isContinue⟩ := List.map_eq_singleton_iff.mp spelled
      exact reads_continueLoop (congrArg Word.kind isContinue)
  | returnNothing =>
      obtain ⟨token, rfl, isReturn⟩ := List.map_eq_singleton_iff.mp spelled
      exact reads_returnNothing (congrArg Word.kind isReturn) ends
  | returnValue printed =>
      obtain ⟨token, others, rfl, isReturn, valueSpelled⟩ := List.map_eq_cons_iff.mp spelled
      exact reads_returnValue (congrArg Word.kind isReturn) printed valueSpelled ends
  | pass =>
      obtain ⟨token, rfl, isPass⟩ := List.map_eq_singleton_iff.mp spelled
      exact reads_pass (congrArg Word.kind isPass)
  | delete isName =>
      obtain ⟨token, others, rfl, isDelete, nameSpelled⟩ := List.map_eq_cons_iff.mp spelled
      obtain ⟨name, rfl, same⟩ := List.map_eq_singleton_iff.mp nameSpelled
      obtain rfl : name.lexeme = _ := congrArg Word.lexeme same
      exact reads_delete (congrArg Word.kind isDelete) (congrArg Word.kind same)

end Parse

end ScriptEngine
