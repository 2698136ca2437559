import ScriptEngine.Proofs.Grammar.Accounted

/-!
# Every token is accounted for

The statements of a source account for its tokens from the first to the last, each
compound for its keywords, its expressions and its bodies. So an accepted source is made of
tokens throughout, and a traversal of its script lists all of them that are no punctuation
(`Script.accounts_of_ofSource`).
-/

set_option autoImplicit false

namespace ScriptEngine

namespace AssignOperator

theorem kind_of_assignOperator? {kind : TokenKind} {operator : AssignOperator}
    (found : Parse.assignOperator? kind = some operator) : operator.word.kind = kind := by
  cases kind <;> cases found <;> rfl

theorem isListed_word (operator : AssignOperator) : operator.word.kind.isListed = true := by
  cases operator <;> rfl

end AssignOperator

namespace Parse

variable {cursor after : Cursor}

/-!
## Statements without blocks
-/

/-- A statement with its bodies fills the slots that are new, nothing follows it yet, and
its traversal accounts for the tokens that were taken. -/
def AccountsStatement (cursor after : Cursor) (this : StatementRef) : Prop :=
  ∃ tree : StatementTree, tree.Laid after.script cursor.script.statements.size this ∧
    after.script.next this = none ∧ this.index + 1 = after.script.statements.size ∧
      cursor.Accounted after tree.marks

variable {this : StatementRef}

theorem accounts_pushStatement {origin : Cursor} {node : Statement} {tree : StatementTree}
    (pushed : pushStatement node cursor = .ok (this, after))
    (built : tree.BuiltFrom cursor.script origin.script.statements.size
      cursor.script.statements.size node)
    (account : origin.Accounted cursor tree.marks) : AccountsStatement origin after this := by
  obtain ⟨_, _, _, alone, stop⟩ := pushStatement_ok pushed
  cases pushed
  exact ⟨tree, built.push, alone, stop, account.quiet (.stays rfl)⟩

private theorem accounts_assignmentOrExpression {bound : Nat}
    (parsed : assignmentOrExpression bound cursor = .ok (this, after)) :
    AccountsStatement cursor after this := by
  simp only [assignmentOrExpression] at parsed
  obtain ⟨left, first, leftParsed, parsed⟩ := bind_ok parsed
  obtain ⟨token, second, tokenRead, parsed⟩ := bind_ok parsed
  obtain ⟨rfl, _⟩ := peek_ok tokenRead
  have leftSpells := spells_expression leftParsed
  have leftGrown := (roots_expression _ _ _ _ leftParsed trivial).1
  cases found : assignOperator? token.kind with
  | none =>
      rw [found] at parsed
      obtain ⟨tree, treeAt, account⟩ := leftSpells.node
      have built : (StatementTree.expression tree).BuiltFrom first.script
          cursor.script.statements.size first.script.statements.size (.expression left.node) :=
        ⟨left.node, rfl, treeAt, by rw [leftGrown.statements]⟩
      exact accounts_pushStatement parsed built account
  | some operator =>
      rw [found] at parsed
      obtain ⟨_, third, skipped, parsed⟩ := bind_ok parsed
      have kept := keepsScript_skip _ _ _ skipped
      have assigned : first.Accounted third [.symbol operator.word.kind] :=
        accounted_skip tokenRead skipped
          (.symbol (AssignOperator.kind_of_assignOperator? found).symm operator.isListed_word)
      cases target? : left.target with
      | none =>
          rw [target?] at parsed
          exact (refuse_ok parsed).elim
      | some target =>
          rw [target?] at parsed
          obtain ⟨value, fourth, valueParsed, parsed⟩ := bind_ok parsed
          obtain ⟨valueTree, valueAt, valueAccount⟩ := (spells_expression valueParsed).node
          have valueGrown := (roots_expression _ _ _ _ valueParsed trivial).1
          have own : cursor.script.statements.size = fourth.script.statements.size := by
            rw [valueGrown.statements, kept, leftGrown.statements]
          have targetSpells := leftSpells.target target target?
          have later := assigned.trans valueAccount
          have grown := valueGrown.expressions
          rw [kept] at grown
          cases target with
          | name identifier =>
              have built : (StatementTree.assignName identifier operator valueTree
                  (left.span.merge value.span)).BuiltFrom fourth.script
                    cursor.script.statements.size fourth.script.statements.size _ :=
                ⟨value.node, rfl, valueAt, own⟩
              exact accounts_pushStatement parsed built (targetSpells.trans later)
          | member object identifier =>
              obtain ⟨objectTree, objectAt, account⟩ := targetSpells
              have built : (StatementTree.assignMember objectTree identifier operator valueTree
                  (left.span.merge value.span)).BuiltFrom fourth.script
                    cursor.script.statements.size fourth.script.statements.size _ :=
                ⟨object, value.node, rfl, objectAt.grow grown, valueAt, own⟩
              refine accounts_pushStatement parsed built ?_
              simpa [StatementTree.marks] using account.trans later
          | element object index =>
              obtain ⟨objectTree, indexTree, objectAt, indexAt, account⟩ := targetSpells
              have built : (StatementTree.assignElement objectTree indexTree operator valueTree
                  (left.span.merge value.span)).BuiltFrom fourth.script
                    cursor.script.statements.size fourth.script.statements.size _ :=
                ⟨object, index, value.node, rfl, objectAt.grow grown, indexAt.grow grown, valueAt,
                  own⟩
              refine accounts_pushStatement parsed built ?_
              simpa [StatementTree.marks] using account.trans later

private theorem accounted_printedRest (bound : Nat) {nodes : List ExpressionRef}
    (parsed : printedRest bound cursor = .ok (nodes, after)) :
    ∃ trees, ExpressionTree.AllAt after.script trees nodes after.script.expressions.size ∧
      cursor.Accounted after (ExpressionTree.allMarks trees) := by
  induction bound generalizing cursor after nodes with
  | zero => cases parsed
  | succ bound ih =>
      simp only [printedRest] at parsed
      obtain ⟨more, first, moreRead, parsed⟩ := bind_ok parsed
      have separated := accounted_accept moreRead fun _ same => .punctuation same rfl (by decide)
      simp only [ite_self] at separated
      split at parsed
      · obtain ⟨value, second, valueParsed, parsed⟩ := bind_ok parsed
        obtain ⟨rest, third, restParsed, finished⟩ := bind_ok parsed
        obtain ⟨tree, treeAt, account⟩ := (spells_expression valueParsed).node
        obtain ⟨trees, treesAt, restAccount⟩ := ih restParsed
        have later := treeAt.grow (printedRest_roots _ _ _ _ restParsed trivial).1.expressions
        cases finished
        exact ⟨tree :: trees, ⟨⟨later.present, later⟩, treesAt⟩,
          separated.trans (account.trans restAccount)⟩
      · cases parsed
        exact ⟨[], trivial, separated⟩

theorem atTerminator_ok {ended : Bool} (read : atTerminator cursor = .ok (ended, after)) :
    cursor = after := by
  obtain ⟨token, middle, peeked, finished⟩ := bind_ok read
  cases finished
  exact (peek_ok peeked).1

/-- A keyword that is passed over is taken alone, and the script stays. -/
private theorem accounted_keyword {token : Token} {kind : TokenKind} {second : Cursor}
    (read : peek cursor = .ok (token, cursor)) (skipped : skip cursor = .ok ((), second))
    (same : token.kind = kind) (listed : kind.isListed = true) :
    cursor.Accounted second [.symbol kind] ∧ second.script = cursor.script :=
  ⟨accounted_skip read skipped (.symbol same listed), keepsScript_skip _ _ _ skipped⟩

private theorem accounts_print {bound : Nat} {second third fourth : Cursor}
    {value : ParsedExpression} {rest : List ExpressionRef}
    (taken : cursor.Accounted second [.symbol .printWord]) (kept : second.script = cursor.script)
    (valueParsed : expression bound second = .ok (value, third))
    (restParsed : printedRest bound third = .ok (rest, fourth))
    (pushed : pushStatement (.print (value.node :: rest)) fourth = .ok (this, after)) :
    AccountsStatement cursor after this := by
  obtain ⟨tree, treeAt, account⟩ := (spells_expression valueParsed).node
  obtain ⟨trees, treesAt, restAccount⟩ := accounted_printedRest bound restParsed
  have grown := (roots_expression _ _ _ _ valueParsed trivial).1
  have added := (printedRest_roots _ _ _ _ restParsed trivial).1
  have later := treeAt.grow added.expressions
  have built : (StatementTree.print (tree :: trees)).BuiltFrom fourth.script
      cursor.script.statements.size fourth.script.statements.size (.print (value.node :: rest)) :=
    ⟨_, rfl, ⟨⟨later.present, later⟩, treesAt⟩, by rw [added.statements, grown.statements, kept]⟩
  exact accounts_pushStatement pushed built (taken.trans (account.trans restAccount))

/-- A `break` with a count is one mark for two tokens. -/
private theorem accounts_countedBreak {token number : Token} {second third : Cursor} {count : Nat}
    (tokenRead : peek cursor = .ok (token, cursor)) (skipped : skip cursor = .ok ((), second))
    (numberRead : peek second = .ok (number, second)) (reskipped : skip second = .ok ((), third))
    (kindIs : token.kind = .breakWord) (numberKind : number.kind = .number)
    (counts : number.count? = some count)
    (pushed : pushStatement (.breakLoops count (token.span.merge number.span)) third =
      .ok (this, after)) : AccountsStatement cursor after this := by
  have built : (StatementTree.breakLoops count (token.span.merge number.span)).BuiltFrom
      third.script cursor.script.statements.size third.script.statements.size
      (.breakLoops count (token.span.merge number.span)) :=
    ⟨rfl, by rw [keepsScript_skip _ _ _ reskipped, keepsScript_skip _ _ _ skipped]⟩
  refine accounts_pushStatement pushed built fun closed => ?_
  obtain ⟨items, closed⟩ := skip_taken tokenRead skipped (by simp [kindIs]) closed
  obtain ⟨moreItems, closed⟩ := skip_taken numberRead reskipped (by simp [numberKind]) closed
  exact ⟨[token, number], by simp [items, moreItems], closed,
    .single (.breakLoops kindIs numberKind counts)⟩

private theorem accounts_returnValue {bound : Nat} {second third : Cursor}
    {value : ParsedExpression} (taken : cursor.Accounted second [.symbol .returnWord])
    (kept : second.script = cursor.script)
    (valueParsed : expression bound second = .ok (value, third))
    (pushed : pushStatement (.returnValue (some value.node)) third = .ok (this, after)) :
    AccountsStatement cursor after this := by
  obtain ⟨tree, treeAt, account⟩ := (spells_expression valueParsed).node
  have grown := (roots_expression _ _ _ _ valueParsed trivial).1
  have built : (StatementTree.returnValue (some tree)).BuiltFrom third.script
      cursor.script.statements.size third.script.statements.size
      (.returnValue (some value.node)) :=
    ⟨_, rfl, treeAt, by rw [grown.statements, kept]⟩
  exact accounts_pushStatement pushed built (taken.trans account)

/-- What comes behind the keyword of a simple statement. -/
private theorem accounts_simpleStatement {bound : Nat}
    (parsed : simpleStatement bound cursor = .ok (this, after)) :
    AccountsStatement cursor after this := by
  simp only [simpleStatement] at parsed
  obtain ⟨token, first, tokenRead, parsed⟩ := bind_ok parsed
  obtain ⟨rfl, _⟩ := peek_ok tokenRead
  generalize kindIs : token.kind = kind at parsed
  split at parsed
  · obtain ⟨_, second, skipped, parsed⟩ := bind_ok parsed
    obtain ⟨taken, kept⟩ := accounted_keyword tokenRead skipped kindIs rfl
    obtain ⟨ended, third, endRead, parsed⟩ := bind_ok parsed
    obtain rfl := atTerminator_ok endRead
    split at parsed
    · have built : (StatementTree.print []).BuiltFrom second.script cursor.script.statements.size
          second.script.statements.size (.print []) := ⟨[], rfl, trivial, by rw [kept]⟩
      exact accounts_pushStatement parsed built taken
    · obtain ⟨value, fourth, valueParsed, parsed⟩ := bind_ok parsed
      obtain ⟨rest, fifth, restParsed, pushed⟩ := bind_ok parsed
      exact accounts_print taken kept valueParsed restParsed pushed
  · obtain ⟨_, second, skipped, pushed⟩ := bind_ok parsed
    obtain ⟨taken, kept⟩ := accounted_keyword tokenRead skipped kindIs rfl
    have built : StatementTree.pass.BuiltFrom second.script cursor.script.statements.size
        second.script.statements.size .pass := ⟨rfl, by rw [kept]⟩
    exact accounts_pushStatement pushed built taken
  · obtain ⟨_, second, skipped, pushed⟩ := bind_ok parsed
    obtain ⟨taken, kept⟩ := accounted_keyword tokenRead skipped kindIs rfl
    have built : (StatementTree.continueLoop token.span).BuiltFrom second.script
        cursor.script.statements.size second.script.statements.size (.continueLoop token.span) :=
      ⟨rfl, by rw [kept]⟩
    exact accounts_pushStatement pushed built taken
  · obtain ⟨_, second, skipped, parsed⟩ := bind_ok parsed
    obtain ⟨number?, third, numberRead, parsed⟩ := bind_ok parsed
    rcases accept?_ok numberRead with ⟨rfl, rfl⟩ | ⟨number, rfl, numberKind, peeked, reskipped⟩
    · have taken := accounted_skip tokenRead skipped (.of_stands (.breakLoop kindIs))
      have built : (StatementTree.breakLoops 1 token.span).BuiltFrom second.script
          cursor.script.statements.size second.script.statements.size
          (.breakLoops 1 token.span) := ⟨rfl, by rw [keepsScript_skip _ _ _ skipped]⟩
      exact accounts_pushStatement parsed built taken
    · dsimp only at parsed
      cases counts : number.count? with
      | none =>
          rw [counts] at parsed
          exact (refuse_ok parsed).elim
      | some count =>
          rw [counts] at parsed
          exact accounts_countedBreak tokenRead skipped peeked reskipped kindIs numberKind counts
            parsed
  · obtain ⟨_, second, skipped, parsed⟩ := bind_ok parsed
    obtain ⟨taken, kept⟩ := accounted_keyword tokenRead skipped kindIs rfl
    obtain ⟨ended, third, endRead, parsed⟩ := bind_ok parsed
    obtain rfl := atTerminator_ok endRead
    split at parsed
    · have built : (StatementTree.returnValue none).BuiltFrom second.script
          cursor.script.statements.size second.script.statements.size (.returnValue none) :=
        ⟨rfl, by rw [kept]⟩
      exact accounts_pushStatement parsed built taken
    · obtain ⟨value, fourth, valueParsed, pushed⟩ := bind_ok parsed
      exact accounts_returnValue taken kept valueParsed pushed
  · obtain ⟨_, second, skipped, parsed⟩ := bind_ok parsed
    obtain ⟨taken, kept⟩ := accounted_keyword tokenRead skipped kindIs rfl
    obtain ⟨⟨deleted, span⟩, third, nameRead, pushed⟩ := bind_ok parsed
    have keptName := keepsScript_name _ _ _ nameRead
    have built : (StatementTree.delete deleted (token.span.merge span)).BuiltFrom third.script
        cursor.script.statements.size third.script.statements.size
        (.delete deleted (token.span.merge span)) := ⟨rfl, by rw [keptName, kept]⟩
    exact accounts_pushStatement pushed built (taken.trans (accounted_name nameRead))
  · exact accounts_assignmentOrExpression parsed

/-!
## Compounds
-/

/-- The productions for statements take what the traversals of their results account for. -/
structure AccountsStatements (bound : Nat) : Prop where
  sequence {cursor after : Cursor} {row : List StatementRef} {ends : List TokenKind}
    (parsed : sequence bound ends cursor = .ok (row, after)) (planted : cursor.script.Planted) :
    ∃ trees, RowLaid after.script trees row cursor.script.statements.size
        after.script.statements.size ∧
      cursor.Accounted after (blockMarks trees)
  statement {cursor after : Cursor} {this : StatementRef}
    (parsed : statement bound cursor = .ok (this, after)) (planted : cursor.script.Planted) :
    AccountsStatement cursor after this
  block {cursor after : Cursor} {head : Option StatementRef} {severalLines : Bool}
    (parsed : block bound cursor = .ok ((head, severalLines), after))
    (planted : cursor.script.Planted) :
    ∃ body, BlockLaid after.script body head cursor.script.statements.size
        after.script.statements.size ∧
      cursor.Accounted after (blockMarks body)
  furtherBranches {cursor after : Cursor} {severalLines : Bool}
    {branches : List (ExpressionRef × Option StatementRef)}
    {otherwise : Option (Option StatementRef)}
    (parsed : furtherBranches bound severalLines cursor = .ok ((branches, otherwise), after))
    (planted : cursor.script.Planted) :
    ∃ tree : BranchTree, tree.Laid after.script branches otherwise cursor.script.statements.size
        after.script.statements.size ∧
      cursor.Accounted after (tree.marks .elsifWord)
  recordBody {cursor after : Cursor} {head : Option StatementRef}
    (parsed : recordBody bound cursor = .ok (head, after)) (planted : cursor.script.Planted) :
    ∃ body, BlockLaid after.script body head cursor.script.statements.size
        after.script.statements.size ∧
      cursor.Accounted after (blockMarks body)

private theorem accounts_sequence {bound : Nat} (ih : AccountsStatements bound)
    {row : List StatementRef} {ends : List TokenKind}
    (parsed : sequence (bound + 1) ends cursor = .ok (row, after))
    (planted : cursor.script.Planted) :
    ∃ trees, RowLaid after.script trees row cursor.script.statements.size
        after.script.statements.size ∧
      cursor.Accounted after (blockMarks trees) := by
  simp only [sequence] at parsed
  obtain ⟨_, first, skipped, parsed⟩ := bind_ok parsed
  obtain ⟨token, second, tokenRead, parsed⟩ := bind_ok parsed
  obtain ⟨rfl, _⟩ := peek_ok tokenRead
  have separated := accounted_skipKinds (by decide) skipped
  have kept := keepsScript_skipKinds _ _ _ _ skipped
  rw [← kept] at planted ⊢
  split at parsed
  · cases parsed
    exact ⟨[], rfl, separated⟩
  · split at parsed
    · exact (refuse_ok parsed).elim
    · obtain ⟨this, third, thisParsed, parsed⟩ := bind_ok parsed
      obtain ⟨rest, fourth, restParsed, finished⟩ := bind_ok parsed
      obtain ⟨tree, treeLaid, alone, stop, account⟩ := ih.statement thisParsed planted
      obtain ⟨_, stillPlanted, _⟩ := (laysStatements bound).statement _ _ _ thisParsed planted
      obtain ⟨trees, restLaid, restAccount⟩ := ih.sequence restParsed stillPlanted
      obtain ⟨more, _, _⟩ := (laysStatements bound).sequence _ _ _ _ restParsed stillPlanted
      cases finished
      have slots (index : Nat) (old : index < this.index + 1) :
          after.script.statements[index]? = third.script.statements[index]? :=
        more.statements index (by omega)
      have own := slots this.index (Nat.lt_succ_self _)
      refine ⟨tree :: trees, ⟨⟨?_, ?_⟩, ?_⟩, separated.trans (account.trans restAccount)⟩
      · exact treeLaid.keep more.expressions tree (fun index _ upper => slots index (by omega))
          (by simp only [Script.statement?, own])
      · simpa only [Script.next, own] using alone
      · rw [stop]
        exact restLaid

/-- A block with the `end` that may close it. -/
private theorem accounts_closedBlock {bound : Nat} (ih : AccountsStatements bound)
    {middle : Cursor} {head : Option StatementRef} {severalLines : Bool}
    (parsed : block bound cursor = .ok ((head, severalLines), middle))
    (closed : closeCompound severalLines middle = .ok ((), after))
    (planted : cursor.script.Planted) :
    ∃ body, BlockLaid after.script body head cursor.script.statements.size
        after.script.statements.size ∧
      cursor.Accounted after (blockMarks body) ∧ cursor.script.Extends after.script := by
  obtain ⟨body, bodyLaid, account⟩ := ih.block parsed planted
  obtain ⟨grown, _, _⟩ := (laysStatements bound).block _ _ _ parsed planted
  rw [keepsScript_closeCompound _ _ _ _ closed]
  exact ⟨body, bodyLaid, account.quiet (accounted_closeCompound closed), grown⟩

/-- A condition, its block and the branches behind it, which is what stands behind `if`
and behind every `elsif`. -/
private theorem accounts_tested {bound : Nat} (ih : AccountsStatements bound)
    {first second : Cursor} {condition : ParsedExpression} {head : Option StatementRef}
    {severalLines : Bool} {branches : List (ExpressionRef × Option StatementRef)}
    {otherwise : Option (Option StatementRef)}
    (conditionParsed : expression bound cursor = .ok (condition, first))
    (blockParsed : block bound first = .ok ((head, severalLines), second))
    (branchesParsed : furtherBranches bound severalLines second =
      .ok ((branches, otherwise), after)) (planted : cursor.script.Planted) :
    ∃ tree body rest,
      (BranchTree.test tree body rest).Laid after.script ((condition.node, head) :: branches)
        otherwise cursor.script.statements.size after.script.statements.size ∧
      cursor.Accounted after (tree.marks ++ (blockMarks body ++ rest.marks .elsifWord)) := by
  obtain ⟨tree, treeAt, account⟩ := (spells_expression conditionParsed).node
  have grown := (roots_expression _ _ _ _ conditionParsed trivial).1
  have conditionPlanted := grown.planted planted
  obtain ⟨body, bodyLaid, bodyAccount⟩ := ih.block blockParsed conditionPlanted
  obtain ⟨bodyGrown, bodyPlanted, _⟩ :=
    (laysStatements bound).block _ _ _ blockParsed conditionPlanted
  obtain ⟨rest, restLaid, restAccount⟩ := ih.furtherBranches branchesParsed bodyPlanted
  obtain ⟨restGrown, _, _⟩ :=
    (laysStatements bound).furtherBranches _ _ _ _ branchesParsed bodyPlanted
  have conditionAt := treeAt.grow (bodyGrown.trans restGrown).expressions
  have bodyStands := bodyLaid.keep restGrown.expressions body
    fun index _ upper => restGrown.statements index upper
  rw [← grown.statements]
  exact ⟨tree, body, rest, ⟨_, _, _, _, rfl, conditionAt, bodyStands, restLaid⟩,
    account.trans (bodyAccount.trans restAccount)⟩

/-- What a loop evaluates, with its body. -/
private theorem accounts_loop {bound : Nat} (ih : AccountsStatements bound)
    {first second : Cursor} {value : ParsedExpression} {head : Option StatementRef}
    {severalLines : Bool} (valueParsed : expression bound cursor = .ok (value, first))
    (blockParsed : block bound first = .ok ((head, severalLines), second))
    (closed : closeCompound severalLines second = .ok ((), after))
    (planted : cursor.script.Planted) :
    ∃ (tree : ExpressionTree) (body : List StatementTree), tree.At after.script value.node ∧
      BlockLaid after.script body head cursor.script.statements.size
        after.script.statements.size ∧
      cursor.Accounted after (tree.marks ++ blockMarks body) := by
  obtain ⟨tree, treeAt, account⟩ := (spells_expression valueParsed).node
  have grown := (roots_expression _ _ _ _ valueParsed trivial).1
  obtain ⟨body, bodyLaid, bodyAccount, bodyGrown⟩ :=
    accounts_closedBlock ih blockParsed closed (grown.planted planted)
  rw [← grown.statements]
  exact ⟨tree, body, treeAt.grow bodyGrown.expressions tree, bodyLaid, account.trans bodyAccount⟩

private theorem accounts_compound {bound : Nat} (ih : AccountsStatements bound)
    (parsed : statement (bound + 1) cursor = .ok (this, after))
    (planted : cursor.script.Planted) : AccountsStatement cursor after this := by
  simp only [statement] at parsed
  obtain ⟨token, first, tokenRead, parsed⟩ := bind_ok parsed
  obtain ⟨rfl, _⟩ := peek_ok tokenRead
  generalize kindIs : token.kind = kind at parsed
  split at parsed
  · obtain ⟨_, second, skipped, parsed⟩ := bind_ok parsed
    obtain ⟨condition, third, conditionParsed, parsed⟩ := bind_ok parsed
    obtain ⟨⟨head, severalLines⟩, fourth, blockParsed, parsed⟩ := bind_ok parsed
    obtain ⟨⟨branches, otherwise⟩, fifth, branchesParsed, pushed⟩ := bind_ok parsed
    obtain ⟨taken, kept⟩ := accounted_keyword tokenRead skipped kindIs rfl
    rw [← kept] at planted
    obtain ⟨tree, body, rest, laid, account⟩ :=
      accounts_tested ih conditionParsed blockParsed branchesParsed planted
    rw [kept] at laid
    have built : (StatementTree.branch (.test tree body rest)).BuiltFrom fifth.script
        cursor.script.statements.size fifth.script.statements.size
        (.branch ((condition.node, head) :: branches) otherwise) := ⟨_, _, rfl, laid⟩
    refine accounts_pushStatement pushed built ?_
    simpa [StatementTree.marks, BranchTree.marks] using taken.trans account
  · obtain ⟨_, second, skipped, parsed⟩ := bind_ok parsed
    obtain ⟨condition, third, conditionParsed, parsed⟩ := bind_ok parsed
    obtain ⟨⟨head, severalLines⟩, fourth, blockParsed, parsed⟩ := bind_ok parsed
    obtain ⟨_, fifth, closed, pushed⟩ := bind_ok parsed
    obtain ⟨taken, kept⟩ := accounted_keyword tokenRead skipped kindIs rfl
    rw [← kept] at planted
    obtain ⟨tree, body, treeAt, bodyLaid, account⟩ :=
      accounts_loop ih conditionParsed blockParsed closed planted
    rw [kept] at bodyLaid
    have built : (StatementTree.whileLoop tree body).BuiltFrom fifth.script
        cursor.script.statements.size fifth.script.statements.size
        (.whileLoop condition.node head) := ⟨_, _, rfl, treeAt, bodyLaid⟩
    exact accounts_pushStatement pushed built (taken.trans account)
  · obtain ⟨_, second, skipped, parsed⟩ := bind_ok parsed
    obtain ⟨⟨item, itemSpan⟩, third, nameRead, parsed⟩ := bind_ok parsed
    obtain ⟨inWord, fourth, inRead, parsed⟩ := bind_ok parsed
    obtain ⟨iterable, fifth, iterableParsed, parsed⟩ := bind_ok parsed
    obtain ⟨⟨head, severalLines⟩, sixth, blockParsed, parsed⟩ := bind_ok parsed
    obtain ⟨_, seventh, closed, pushed⟩ := bind_ok parsed
    obtain ⟨taken, kept⟩ := accounted_keyword tokenRead skipped kindIs rfl
    have keptHead : fourth.script = cursor.script := by
      rw [keepsScript_expect _ _ _ _ inRead, keepsScript_name _ _ _ nameRead, kept]
    obtain ⟨inKind, inTaken⟩ := expect_ok inRead
    have connected := accounted_next inTaken (.symbol inKind rfl)
    rw [← keptHead] at planted
    obtain ⟨tree, body, treeAt, bodyLaid, account⟩ :=
      accounts_loop ih iterableParsed blockParsed closed planted
    rw [keptHead] at bodyLaid
    have built : (StatementTree.forLoop item tree body
        (token.span.merge iterable.span)).BuiltFrom seventh.script
          cursor.script.statements.size seventh.script.statements.size
          (.forLoop item iterable.node head (token.span.merge iterable.span)) :=
      ⟨_, _, rfl, treeAt, bodyLaid⟩
    exact accounts_pushStatement pushed built
      (taken.trans ((accounted_name nameRead).trans (connected.trans account)))
  · obtain ⟨_, second, skipped, parsed⟩ := bind_ok parsed
    obtain ⟨⟨function, functionSpan⟩, third, nameRead, parsed⟩ := bind_ok parsed
    obtain ⟨parenthesis, fourth, parenthesisRead, parsed⟩ := bind_ok parsed
    obtain ⟨names, fifth, namesRead, parsed⟩ := bind_ok parsed
    obtain ⟨⟨head, severalLines⟩, sixth, blockParsed, parsed⟩ := bind_ok parsed
    obtain ⟨_, seventh, closed, pushed⟩ := bind_ok parsed
    obtain ⟨taken, kept⟩ := accounted_keyword tokenRead skipped kindIs rfl
    have keptHead : fifth.script = cursor.script := by
      rw [keepsScript_parameters _ _ _ _ namesRead, keepsScript_expect _ _ _ _ parenthesisRead,
        keepsScript_name _ _ _ nameRead, kept]
    have named := (accounted_name nameRead).quiet (accounted_expect parenthesisRead rfl (by decide))
    have listed := accounted_parameters bound namesRead
    rw [← keptHead] at planted
    obtain ⟨body, bodyLaid, bodyAccount, _⟩ := accounts_closedBlock ih blockParsed closed planted
    rw [keptHead] at bodyLaid
    have built : (StatementTree.define function names head body).BuiltFrom seventh.script
        cursor.script.statements.size seventh.script.statements.size
        (.define function names head) := ⟨rfl, bodyLaid⟩
    exact accounts_pushStatement pushed built
      (taken.trans (named.trans (listed.trans bodyAccount)))
  · obtain ⟨_, second, skipped, parsed⟩ := bind_ok parsed
    obtain ⟨⟨record, recordSpan⟩, third, nameRead, parsed⟩ := bind_ok parsed
    obtain ⟨head, fourth, bodyParsed, pushed⟩ := bind_ok parsed
    obtain ⟨taken, kept⟩ := accounted_keyword tokenRead skipped kindIs rfl
    have keptHead : third.script = cursor.script := by
      rw [keepsScript_name _ _ _ nameRead, kept]
    rw [← keptHead] at planted
    obtain ⟨body, bodyLaid, bodyAccount⟩ := ih.recordBody bodyParsed planted
    rw [keptHead] at bodyLaid
    have built : (StatementTree.record record body (token.span.merge recordSpan)).BuiltFrom
        fourth.script cursor.script.statements.size fourth.script.statements.size
        (.record record head (token.span.merge recordSpan)) := ⟨head, rfl, bodyLaid⟩
    exact accounts_pushStatement pushed built
      (taken.trans ((accounted_name nameRead).trans bodyAccount))
  · obtain ⟨simple, second, simpleParsed, parsed⟩ := bind_ok parsed
    obtain ⟨_, third, ended, finished⟩ := bind_ok parsed
    obtain ⟨tree, treeLaid, alone, stop, account⟩ := accounts_simpleStatement simpleParsed
    have kept := keepsScript_terminator _ _ _ ended
    cases finished
    rw [← kept] at treeLaid alone stop
    exact ⟨tree, treeLaid, alone, stop, account.quiet (accounted_terminator ended)⟩

private theorem accounts_block {bound : Nat} (ih : AccountsStatements bound)
    {head : Option StatementRef} {severalLines : Bool}
    (parsed : block (bound + 1) cursor = .ok ((head, severalLines), after))
    (planted : cursor.script.Planted) :
    ∃ body, BlockLaid after.script body head cursor.script.statements.size
        after.script.statements.size ∧
      cursor.Accounted after (blockMarks body) := by
  simp only [block] at parsed
  obtain ⟨colon, first, colonRead, parsed⟩ := bind_ok parsed
  have opened := accounted_accept colonRead fun _ same => .punctuation same rfl (by decide)
  have kept := keepsScript_accept _ _ _ _ colonRead
  simp only [ite_self] at opened
  rw [← kept] at planted ⊢
  split at parsed
  · obtain ⟨simple, second, simpleParsed, parsed⟩ := bind_ok parsed
    obtain ⟨_, third, ended, finished⟩ := bind_ok parsed
    obtain ⟨tree, treeLaid, alone, stop, account⟩ := accounts_simpleStatement simpleParsed
    have keptEnd := keepsScript_terminator _ _ _ ended
    have whole := (opened.trans account).quiet (accounted_terminator ended)
    cases finished
    rw [← keptEnd] at treeLaid alone stop
    refine ⟨[tree], ⟨simple, rfl, treeLaid, alone, stop⟩, ?_⟩
    simpa [blockMarks] using whole
  · obtain ⟨token, second, tokenRead, parsed⟩ := bind_ok parsed
    have keptToken := keepsScript_next _ _ _ tokenRead
    generalize kindIs : token.kind = kind at parsed
    split at parsed
    · obtain ⟨row, third, rowParsed, parsed⟩ := bind_ok parsed
      obtain ⟨linked, fourth, linkedRow, finished⟩ := bind_ok parsed
      rw [← keptToken] at planted ⊢
      obtain ⟨trees, rowLaid, account⟩ := ih.sequence rowParsed planted
      have begun := opened.trans (accounted_next tokenRead (.punctuation kindIs rfl (by decide)))
      cases linkedRow
      cases finished
      obtain ⟨blockLaid, _⟩ := rowLaid.link (Nat.le_refl _)
      refine ⟨trees, ?_, (begun.trans account).quiet (.stays rfl)⟩
      rw [Script.link_size]
      exact blockLaid
    · exact (refuse_ok parsed).elim
    · exact (refuse_ok parsed).elim

private theorem accounts_furtherBranches {bound : Nat} (ih : AccountsStatements bound)
    {severalLines : Bool} {branches : List (ExpressionRef × Option StatementRef)}
    {otherwise : Option (Option StatementRef)}
    (parsed : furtherBranches (bound + 1) severalLines cursor =
      .ok ((branches, otherwise), after)) (planted : cursor.script.Planted) :
    ∃ tree : BranchTree, tree.Laid after.script branches otherwise cursor.script.statements.size
        after.script.statements.size ∧
      cursor.Accounted after (tree.marks .elsifWord) := by
  simp only [furtherBranches] at parsed
  obtain ⟨_, first, skipped, parsed⟩ := bind_ok parsed
  obtain ⟨tested, second, testRead, parsed⟩ := bind_ok parsed
  have separated := accounted_skipKinds (by decide) skipped
  have taken := separated.trans (accounted_accept testRead fun _ same => .symbol same rfl)
  have kept : second.script = cursor.script :=
    (keepsScript_accept _ _ _ _ testRead).trans (keepsScript_skipKinds _ _ _ _ skipped)
  rw [← kept] at planted ⊢
  split at parsed
  · next isTest =>
      simp only [isTest, if_true] at taken
      obtain ⟨condition, third, conditionParsed, parsed⟩ := bind_ok parsed
      obtain ⟨⟨head, severalLines⟩, fourth, blockParsed, parsed⟩ := bind_ok parsed
      obtain ⟨⟨more, last⟩, fifth, branchesParsed, finished⟩ := bind_ok parsed
      obtain ⟨tree, body, rest, laid, account⟩ :=
        accounts_tested ih conditionParsed blockParsed branchesParsed planted
      cases finished
      refine ⟨.test tree body rest, laid, ?_⟩
      simpa [BranchTree.marks] using taken.trans account
  · next noTest =>
      simp only [noTest] at taken
      obtain ⟨isElse, third, elseRead, parsed⟩ := bind_ok parsed
      have elseTaken := taken.trans (accounted_accept elseRead fun _ same => .symbol same rfl)
      have keptElse := keepsScript_accept _ _ _ _ elseRead
      rw [← keptElse] at planted ⊢
      split at parsed
      · next isElse =>
          simp only [isElse, if_true] at elseTaken
          obtain ⟨⟨head, severalLines⟩, fourth, blockParsed, parsed⟩ := bind_ok parsed
          obtain ⟨_, fifth, closed, finished⟩ := bind_ok parsed
          obtain ⟨body, bodyLaid, account, _⟩ :=
            accounts_closedBlock ih blockParsed closed planted
          cases finished
          exact ⟨.otherwise body, ⟨head, rfl, rfl, bodyLaid⟩, elseTaken.trans account⟩
      · next noElse =>
          simp only [noElse] at elseTaken
          obtain ⟨_, fourth, closed, finished⟩ := bind_ok parsed
          have keptEnd := keepsScript_closeCompound _ _ _ _ closed
          cases finished
          exact ⟨.missing, ⟨rfl, rfl, by rw [keptEnd]⟩,
            elseTaken.quiet (accounted_closeCompound closed)⟩

private theorem accounts_recordBody {bound : Nat} (ih : AccountsStatements bound)
    {head : Option StatementRef} (parsed : recordBody (bound + 1) cursor = .ok (head, after))
    (planted : cursor.script.Planted) :
    ∃ body, BlockLaid after.script body head cursor.script.statements.size
        after.script.statements.size ∧
      cursor.Accounted after (blockMarks body) := by
  simp only [recordBody] at parsed
  obtain ⟨token, first, tokenRead, parsed⟩ := bind_ok parsed
  obtain ⟨rfl, _⟩ := peek_ok tokenRead
  generalize token.kind = kind at parsed
  split at parsed
  iterate 2
    obtain ⟨_, second, ended, finished⟩ := bind_ok parsed
    have kept := keepsScript_terminator _ _ _ ended
    cases finished
    exact ⟨[], ⟨rfl, by rw [kept]⟩, accounted_terminator ended⟩
  · obtain ⟨⟨inner, severalLines⟩, second, blockParsed, parsed⟩ := bind_ok parsed
    obtain ⟨_, third, closed, finished⟩ := bind_ok parsed
    obtain ⟨body, bodyLaid, account, _⟩ := accounts_closedBlock ih blockParsed closed planted
    cases finished
    exact ⟨body, bodyLaid, account⟩

theorem accountsStatements (bound : Nat) : AccountsStatements bound := by
  induction bound with
  | zero =>
      refine ⟨fun parsed _ => ?_, fun parsed _ => ?_, fun parsed _ => ?_, fun parsed _ => ?_,
        fun parsed _ => ?_⟩
      all_goals cases parsed
  | succ bound ih =>
      exact ⟨accounts_sequence ih, accounts_compound ih, accounts_block ih,
        accounts_furtherBranches ih, accounts_recordBody ih⟩

/-- A whole source is tokens up to its end, and the script accounts for them. -/
theorem program_accounts {bound : Nat} {script : Script}
    (parsed : program bound cursor = .ok (script, after)) (planted : cursor.script.Planted)
    (unused : cursor.script.statements.size = 0) (closed : LexicalItem.Closed cursor.items) :
    ∃ tokens last tree, cursor.items = (tokens ++ [last]).map .ok ∧ last.kind = .endOfSource ∧
      script.tree? = some tree ∧ Mark.AccountFor (blockMarks tree) tokens := by
  simp only [program] at parsed
  obtain ⟨row, first, rowParsed, parsed⟩ := bind_ok parsed
  obtain ⟨last, second, lastRead, parsed⟩ := bind_ok parsed
  obtain ⟨head, third, linked, parsed⟩ := bind_ok parsed
  obtain ⟨trees, rowLaid, account⟩ := (accountsStatements bound).sequence rowParsed planted
  obtain ⟨tokens, items, stillClosed, account⟩ := account closed
  obtain ⟨ends, lastTaken⟩ := expect_ok lastRead
  have lastItem : first.items = [.ok last] := by
    have peeked := (next_ok lastTaken).1
    unfold peek at peeked
    generalize first.items = left at peeked stillClosed
    cases stillClosed with
    | last => cases peeked; rfl
    | @item item rest inner _ =>
        cases item with
        | error => cases peeked
        | ok token =>
            cases peeked
            exact (inner last rfl ends).elim
  have kept := keepsScript_expect _ _ _ _ lastRead
  cases linked
  cases parsed
  rw [unused, ← kept] at rowLaid
  obtain ⟨blockLaid, _⟩ := rowLaid.link (Nat.le_refl _)
  have same : (second.script.link row).KeepsExpressions
      { second.script.link row with first := row.head? } := fun _ _ => rfl
  have laid := BlockLaid.keep same trees blockLaid fun _ _ _ => rfl
  refine ⟨tokens, last, trees, by simp [items, lastItem], ends, ?_, account⟩
  exact Script.block?_of_laid laid (by simp [Script.link_size])

end Parse

/-- An accepted source is made of tokens throughout. A traversal of its script in order
lists every one of them that is no punctuation, and nothing else. -/
theorem Script.accounts_of_ofSource {source : String} {script : Script}
    (accepted : Script.ofSource source = .ok script) :
    ∃ tokens last tree, LexicalItem.scan source = (tokens ++ [last]).map .ok ∧
      last.kind = .endOfSource ∧ script.tree? = some tree ∧
        Mark.AccountFor (blockMarks tree) tokens := by
  obtain ⟨after, parsed⟩ := Cursor.finish_ok accepted
  exact Parse.program_accounts parsed Script.planted_empty rfl
    (LexicalItem.closed_scanFrom 0 0 0 source.toList)

/-- The parentheses, the comma and the separators of this source are in no traversal. -/
theorem Script.accounts_of_branch :
    ∃ script, Script.ofSource "if not (x): y.z += f(a, b)\nelse\nbreak\nend\n" = .ok script ∧
      ∃ tokens last tree,
        LexicalItem.scan "if not (x): y.z += f(a, b)\nelse\nbreak\nend\n" =
            (tokens ++ [last]).map .ok ∧
          last.kind = .endOfSource ∧ script.tree? = some tree ∧
            Mark.AccountFor (blockMarks tree) tokens := by
  have read : (Script.ofSource "if not (x): y.z += f(a, b)\nelse\nbreak\nend\n").toBool = true := by
    cbv
  cases accepted : Script.ofSource "if not (x): y.z += f(a, b)\nelse\nbreak\nend\n" with
  | error failure =>
      rw [accepted] at read
      cases read
  | ok script => exact ⟨script, rfl, Script.accounts_of_ofSource accepted⟩

end ScriptEngine
