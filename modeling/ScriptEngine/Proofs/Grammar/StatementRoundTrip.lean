import ScriptEngine.Proofs.Grammar.SimpleRoundTrip
import ScriptEngine.Proofs.Token.Lines

/-!
# Reading printed statements back

The words of a printed block are read as the block. What a phrase needs behind it depends
on who takes the end of it: a statement takes the separator behind itself, a sequence
stops in front of a token that closes it, and a block of several lines leaves its `end`
to the compound that it belongs to.
-/

set_option autoImplicit false

namespace ScriptEngine

/-!
## What has been read
-/

/-- The block is laid out, and its statements spell the terms. -/
def StatementTerm.BlockLaid (body : List StatementTerm) (script : Script)
    (head : Option StatementRef) (start stop : Nat) : Prop :=
  ∃ trees, ScriptEngine.BlockLaid script trees head start stop ∧ StatementTree.terms trees = body

/-- The statements of a sequence are laid out, not chained yet, and spell the terms. -/
def StatementTerm.RowLaid (statements : List StatementTerm) (script : Script)
    (row : List StatementRef) (start stop : Nat) : Prop :=
  ∃ trees, ScriptEngine.RowLaid script trees row start stop ∧
    StatementTree.terms trees = statements

/-- The bodies of the branches are laid out, and the branches spell the term. -/
def BranchTerm.Laid (rest : BranchTerm) (script : Script)
    (branches : List (ExpressionRef × Option StatementRef) × Option (Option StatementRef))
    (start stop : Nat) : Prop :=
  ∃ tree : BranchTree, tree.Laid script branches.1 branches.2 start stop ∧ tree.term = rest

theorem StatementTerm.BlockLaid.grow {old new : Script} {body : List StatementTerm}
    {head : Option StatementRef} {start : Nat}
    (laid : StatementTerm.BlockLaid body old head start old.statements.size)
    (grown : old.Extends new) :
    StatementTerm.BlockLaid body new head start old.statements.size := by
  obtain ⟨trees, treesLaid, same⟩ := laid
  exact ⟨trees, treesLaid.keep grown.expressions trees fun index _ upper =>
    grown.statements index upper, same⟩

theorem StatementTerm.Laid.cons {old new : Script} (grown : old.Extends new)
    {statement : StatementTerm} {this : StatementRef} {start : Nat}
    (laid : statement.Laid old this start old.statements.size)
    {statements : List StatementTerm} {row : List StatementRef} {stop : Nat}
    (others : StatementTerm.RowLaid statements new row old.statements.size stop) :
    StatementTerm.RowLaid (statement :: statements) new (this :: row) start stop := by
  obtain ⟨⟨tree, treeLaid, rfl⟩, alone, last⟩ := laid
  obtain ⟨trees, treesLaid, rfl⟩ := others
  exact ⟨tree :: trees, treesLaid.cons grown treeLaid alone last, rfl⟩

namespace Parse

variable {tokens rest ending after : List Token} {following : Token} {script : Script}

/-- The kinds of tokens that a sequence stops in front of. -/
def closers (whole : Bool) : List TokenKind :=
  if whole then [.endOfSource] else blockEnds

/-- The block is laid out, and the compound ends behind its last token. -/
def BlockRead (body : List StatementTerm) (middle after : List Token) (script : Script)
    (result : Option StatementRef × Bool) (start stop : Nat) : Prop :=
  StatementTerm.BlockLaid body script result.1 start stop ∧
    closeCompound result.2 (.reading middle script) = .ok ((), .reading after script)

/-- What reading the tokens of a phrase gives. -/
def PhraseReads : Phrase → List Token → Prop
  | .statement statement, tokens =>
      ∀ ending after script, Ends ending after →
        Reads Parse.statement statement.Laid (4 * tokens.length + 1) (tokens ++ ending) after script
  | .block body, tokens =>
      ∀ ending after script, Ends ending after → ∃ middle,
        Reads block (BlockRead body middle after) (4 * tokens.length) (tokens ++ ending) middle
          script
  | .branches rest, tokens =>
      ∀ ending after script, Ends ending after →
        Reads (furtherBranches · true) rest.Laid (4 * tokens.length) (tokens ++ ending) after script
  | .sequence whole statements, tokens =>
      ∀ following rest script, following.kind ∈ closers whole →
        Reads (sequence · (closers whole)) (StatementTerm.RowLaid statements)
          (4 * tokens.length + 2) (tokens ++ following :: rest) (following :: rest) script

/-- Every row of tokens with these words is read as the phrase. -/
def WordsRead (phrase : Phrase) (words : List Word) : Prop :=
  ∀ tokens : List Token, tokens.map Token.word = words → PhraseReads phrase tokens

/-!
## Sequences
-/

theorem not_separator_of_mem_closers {whole : Bool} {kind : TokenKind}
    (closes : kind ∈ closers whole) : kind ∉ [TokenKind.newline, .semicolon] := by
  revert kind
  cases whole <;> decide

private theorem kind_of_separators {words : List Word}
    (separate : ∀ word ∈ words, word ∈ Word.separators)
    (spelled : tokens.map Token.word = words) :
    ∀ token ∈ tokens, token.kind ∈ [TokenKind.newline, .semicolon] := by
  subst spelled
  intro token member
  have kinds : ∀ word ∈ Word.separators, word.kind ∈ [TokenKind.newline, .semicolon] := by decide
  exact kinds _ (separate _ (List.mem_map_of_mem member))

private theorem reads_end {whole : Bool} {leading : List Token}
    (separate : ∀ token ∈ leading, token.kind ∈ [TokenKind.newline, .semicolon])
    (closes : following.kind ∈ closers whole) (rest : List Token) (script : Script) :
    Reads (sequence · (closers whole)) (StatementTerm.RowLaid []) (4 * leading.length + 2)
      (leading ++ following :: rest) (following :: rest) script := by
  have nothing : StatementTerm.RowLaid [] script [] script.statements.size
      script.statements.size := ⟨[], rfl, rfl⟩
  refine Reads.of_call (fun bound => ?_) (reads_pure nothing)
  rw [sequence, bind_of_ok (skipKinds_reading separate (not_separator_of_mem_closers closes) rest
    script), bind_of_ok (peek_reading ..), if_pos (by simpa using closes)]

theorem sequence_begins {token : Token} {leading : List Token}
    (separate : ∀ token ∈ leading, token.kind ∈ [TokenKind.newline, .semicolon])
    (begins : token.kind.beginsStatement = true) (whole : Bool) (bound : Nat) (rest : List Token)
    (script : Script) :
    sequence (bound + 1) (closers whole) (.reading (leading ++ token :: rest) script) =
      (do
        let first ← statement bound
        let others ← sequence bound (closers whole)
        return first :: others) (.reading (token :: rest) script) := by
  have stays : token.kind ∉ [TokenKind.newline, .semicolon] ∧ token.kind ∉ closers whole ∧
      token.kind ≠ .endOfSource := by
    revert begins
    generalize token.kind = kind
    cases whole <;> cases kind <;> decide
  rw [sequence, bind_of_ok (skipKinds_reading separate stays.1 rest script),
    bind_of_ok (peek_reading ..), if_neg (by simpa using stays.2.1), if_neg stays.2.2]

private theorem reads_statement {whole : Bool} {leading behind : List Token}
    {first : StatementTerm} {others : List StatementTerm}
    (separate : ∀ token ∈ leading, token.kind ∈ [TokenKind.newline, .semicolon])
    (begins : ∃ token back, tokens = token :: back ∧ token.kind.beginsStatement = true)
    (reads : Reads statement first.Laid (4 * tokens.length + 1) (tokens ++ ending) after script)
    {cost : Nat} (enough : 4 * (leading.length + tokens.length) < cost)
    (readsRest : ∀ script, Reads (sequence · (closers whole)) (StatementTerm.RowLaid others) cost
      after behind script) :
    Reads (sequence · (closers whole)) (StatementTerm.RowLaid (first :: others)) (cost + 1)
      (leading ++ (tokens ++ ending)) behind script := by
  obtain ⟨token, back, rfl, begins⟩ := begins
  refine Reads.of_call (sequence_begins separate begins whole · _ script) ?_
  refine Reads.bind (reads.mono (by omega)) ?_
  intro this middle _ thisLaid
  refine Reads.bind (readsRest middle) ?_
  intro row grown later rowLaid
  exact reads_pure (thisLaid.cons later rowLaid)

private theorem reads_nothing {whole : Bool} {leading : List Word}
    (separate : ∀ word ∈ leading, word ∈ Word.separators) :
    WordsRead (.sequence whole []) leading := by
  intro tokens spelled following rest script closes
  exact reads_end (kind_of_separators separate spelled) closes rest script

variable {leading words more : List Word} {statement : StatementTerm}

private theorem reads_last (separate : ∀ word ∈ leading, word ∈ Word.separators)
    (begins : Word.BeginWith TokenKind.beginsStatement words)
    (read : WordsRead (.statement statement) words) :
    WordsRead (.sequence true [statement]) (leading ++ words) := by
  intro tokens spelled following rest script closes
  obtain ⟨leading, own, rfl, leadingSpelled, ownSpelled⟩ := List.map_eq_append_iff.mp spelled
  have begins := begins_of_spelled begins ownSpelled
  have ended : following.kind = .endOfSource := by simpa [closers] using closes
  have some : 0 < own.length := by
    obtain ⟨token, back, rfl, _⟩ := begins
    exact Nat.succ_pos _
  have readsEnd (script : Script) : Reads (sequence · (closers true))
      (StatementTerm.RowLaid []) (4 * (leading.length + own.length) + 1)
      (following :: rest) (following :: rest) script :=
    (reads_end (List.forall_mem_nil _) closes rest script).mono (by simp; omega)
  have reads := reads_statement (kind_of_separators separate leadingSpelled) begins
    (read own ownSpelled _ _ script (.source rest ended)) (Nat.lt_succ_self _) readsEnd
  simpa using reads

private theorem reads_followed {whole : Bool} {others : List StatementTerm} {separator : Word}
    (separate : ∀ word ∈ leading, word ∈ Word.separators)
    (begins : Word.BeginWith TokenKind.beginsStatement words)
    (read : WordsRead (.statement statement) words) (separates : separator ∈ Word.separators)
    (readMore : WordsRead (.sequence whole others) more) :
    WordsRead (.sequence whole (statement :: others)) (leading ++ words ++ separator :: more) := by
  intro tokens spelled following rest script closes
  obtain ⟨most, behind, rfl, mostSpelled, behindSpelled⟩ := List.map_eq_append_iff.mp spelled
  obtain ⟨leading, own, rfl, leadingSpelled, ownSpelled⟩ := List.map_eq_append_iff.mp mostSpelled
  obtain ⟨token, back, rfl, isSeparator, backSpelled⟩ := List.map_eq_cons_iff.mp behindSpelled
  have kinds := kind_of_separators (List.forall_mem_singleton.mpr separates)
    (List.map_eq_singleton_iff.mpr ⟨token, rfl, isSeparator⟩) token (List.mem_singleton_self _)
  have ends : Ends (token :: (back ++ following :: rest)) (back ++ following :: rest) :=
    .separator (by simpa using kinds) (by simp)
  have readsRest (script : Script) := (readMore back backSpelled following rest script closes).mono
    (show 4 * back.length + 2 ≤ 4 * (leading.length + own.length + back.length) + 2 by omega)
  have reads := reads_statement (kind_of_separators separate leadingSpelled)
    (begins_of_spelled begins ownSpelled) (read own ownSpelled _ _ script ends) (by omega) readsRest
  simpa using reads.mono (by simp; omega)

/-!
## Blocks
-/

private theorem reads_line (printed : SimplePrinted statement words) :
    WordsRead (.block [statement]) (Word.colon :: words) := by
  intro tokens spelled ending after script ends
  obtain ⟨colon, own, rfl, isColon, ownSpelled⟩ := List.map_eq_cons_iff.mp spelled
  have kind : colon.kind = .colon := congrArg Word.kind isColon
  obtain ⟨following, rest, rfl, terminates⟩ := ends.opens
  have reads : Reads (fun bound => do
      let simple ← simpleStatement bound
      terminator
      return (some simple, false))
      (BlockRead [statement] after after) (4 * own.length) (own ++ following :: rest) after
      script := by
    refine Reads.bind (reads_simpleStatement printed ownSpelled terminates rest script) ?_
    rintro this grown _ ⟨⟨tree, treeLaid, sameTerm⟩, alone, last⟩
    have blockLaid : StatementTerm.BlockLaid [statement] grown (some this) script.statements.size
        grown.statements.size :=
      ⟨[tree], ⟨this, rfl, treeLaid, alone, last⟩, congrArg (· :: []) sameTerm⟩
    refine ⟨(some this, false), grown, .refl grown, ⟨blockLaid, rfl⟩, fun _ _ => ?_⟩
    exact bind_of_ok (terminator_reading ends grown)
  refine ⟨after, (Reads.of_call (fun bound => ?_) reads).mono (by simp)⟩
  rw [block, List.cons_append, accept_reading kind (by simp)]

variable {body : List StatementTerm}

/-- The lines of a block are read and chained up to the token that closes them. -/
private theorem reads_several {newline : Token} {lines : List Token}
    (kind : newline.kind = .newline) (read : PhraseReads (.sequence false body) lines)
    (closes : following.kind ∈ blockEnds) (rest : List Token) (script : Script) :
    Reads block (fun grown result start stop =>
        StatementTerm.BlockLaid body grown result.1 start stop ∧ result.2 = true)
      (4 * (newline :: lines).length) (newline :: (lines ++ following :: rest))
      (following :: rest) script := by
  obtain ⟨row, grown, extended, ⟨trees, rowLaid, same⟩, reads⟩ := read following rest script closes
  obtain ⟨blockLaid, outside⟩ := rowLaid.link (Nat.le_refl _)
  -- Linking changes slots of the row, so it only extends the script from before the row.
  have later : script.Extends (grown.link row) := by
    constructor
    · intro index present
      rw [Script.link_expressions]
      exact extended.expressions index present
    · intro index present
      exact (outside index (.inl present)).trans (extended.statements index present)
  refine ⟨(row.head?, true), grown.link row, later, ⟨⟨trees, ?_, same⟩, rfl⟩,
    fun bound enough => ?_⟩
  · rw [Script.link_size]
    exact blockLaid
  · simp only [List.length_cons] at enough
    obtain ⟨bound, rfl⟩ : ∃ fewer, bound = fewer + 1 := ⟨bound - 1, by omega⟩
    have rowRead : sequence bound blockEnds (.reading (lines ++ following :: rest) script) =
        .ok (row, .reading (following :: rest) grown) := reads bound (by omega)
    have noColon : newline.kind ≠ .colon := by simp [kind]
    rw [block, accept_reading_other noColon, bind_of_ok (next_reading newline (by simp) script),
      kind]
    dsimp only
    rw [bind_of_ok rowRead]
    rfl

theorem closeCompound_reading {endToken : Token} (kind : endToken.kind = .endWord)
    (ends : Ends ending after) (script : Script) :
    closeCompound true (.reading (endToken :: ending) script) =
      .ok ((), .reading after script) := by
  obtain ⟨following, rest, rfl, _⟩ := ends.opens
  rw [closeCompound, if_pos rfl, bind_of_ok (expect_reading kind (by simp) script)]
  exact terminator_reading ends script

private theorem reads_closed {newline endToken : Token} {lines : List Token}
    (kind : newline.kind = .newline) (endKind : endToken.kind = .endWord)
    (read : PhraseReads (.sequence false body) lines) (ends : Ends ending after)
    (script : Script) :
    Reads block (BlockRead body (endToken :: ending) after) (4 * (newline :: lines).length)
      (newline :: (lines ++ endToken :: ending)) (endToken :: ending) script := by
  have closes : endToken.kind ∈ blockEnds := by simp [endKind, blockEnds]
  obtain ⟨⟨head, severalLines⟩, grown, extended, ⟨bodyLaid, rfl⟩, same⟩ :=
    reads_several kind read closes ending script
  exact ⟨(head, true), grown, extended, ⟨bodyLaid, closeCompound_reading endKind ends grown⟩, same⟩

private theorem reads_lines (read : WordsRead (.sequence false body) words) :
    WordsRead (.block body) (Word.newline :: words ++ [Word.endWord]) := by
  intro tokens spelled ending after script ends
  obtain ⟨most, last, rfl, mostSpelled, lastSpelled⟩ := List.map_eq_append_iff.mp spelled
  obtain ⟨endToken, rfl, isEnd⟩ := List.map_eq_singleton_iff.mp lastSpelled
  obtain ⟨newline, lines, rfl, isNewline, linesSpelled⟩ := List.map_eq_cons_iff.mp mostSpelled
  have reads := reads_closed (congrArg Word.kind isNewline) (congrArg Word.kind isEnd)
    (read lines linesSpelled) ends script
  exact ⟨endToken :: ending, by simpa using reads.mono (by simp)⟩

variable {α : Type} {laid : Script → α → Nat → Nat → Prop} {cost : Nat}

/-- A compound that has only one block goes on behind the end of it. -/
private theorem Reads.of_block (production : Option StatementRef → Parse α) {middle : List Token}
    (reads : Reads block (BlockRead body middle after) cost tokens middle script)
    (readsRest : ∀ head grown, script.Extends grown →
      StatementTerm.BlockLaid body grown head script.statements.size grown.statements.size →
      Reads (fun _ => production head)
        (fun final result _ stop => laid final result script.statements.size stop) cost after after
        grown) :
    Reads (fun bound => do
      let (body, severalLines) ← block bound
      closeCompound severalLines
      production body) laid cost tokens after script := by
  refine Reads.bind reads ?_
  rintro ⟨head, severalLines⟩ grown extended ⟨bodyLaid, closed⟩
  refine Reads.of_step (fun _ => ?_) (readsRest head grown extended bodyLaid)
  exact bind_of_ok closed

/-!
## Branches
-/

variable {condition : Term} {further : BranchTerm} {front lines back : List Token}

/-- A condition with its block, and the branches behind it. -/
private theorem Reads.of_test
    (production : List (ExpressionRef × Option StatementRef) × Option (Option StatementRef) →
      Parse α) {newline : Token} (printed : Printed 0 condition words)
    (frontSpelled : front.map Token.word = words) (kind : newline.kind = .newline)
    (begins : ∃ token others, back = token :: others ∧ token.kind.beginsBranch = true)
    (enough : 4 * (front.length + lines.length + 1 + back.length) ≤ cost)
    (readLines : PhraseReads (.sequence false body) lines)
    (readMore : PhraseReads (.branches further) back) (ends : Ends ending after)
    (readsRest : ∀ result grown, script.Extends grown →
      (BranchTerm.test condition body further).Laid grown result script.statements.size
        grown.statements.size →
      Reads (fun _ => production result)
        (fun final value _ stop => laid final value script.statements.size stop) cost after after
        grown) :
    Reads (fun bound => do
      let condition ← expression bound
      let (body, severalLines) ← block bound
      let (branches, otherwise) ← furtherBranches bound severalLines
      production ((condition.node, body) :: branches, otherwise)) laid cost
      (front ++ newline :: (lines ++ (back ++ ending))) after script := by
  obtain ⟨token, others, rfl, begins⟩ := begins
  have closes : token.kind ∈ blockEnds := by
    revert begins
    generalize token.kind = kind
    cases kind <;> decide
  have noPower : newline.kind.leftPower = 0 := by
    rw [kind]
    rfl
  simp only [List.length_cons] at enough
  refine Reads.bind ((reads_expression printed frontSpelled noPower _ script).mono (by omega)) ?_
  rintro parsed first extended ⟨same, conditionAt⟩
  have readsBlock := reads_several kind readLines closes (others ++ ending) first
  refine Reads.bind (readsBlock.mono (by simp only [List.length_cons]; omega)) ?_
  rintro ⟨head, severalLines⟩ second later ⟨bodyLaid, rfl⟩
  have readsMore := readMore ending after second ends
  refine Reads.bind (readsMore.mono (by simp only [List.length_cons]; omega)) ?_
  rintro ⟨branches, otherwise⟩ third latest ⟨tree, treeLaid, rfl⟩
  obtain ⟨conditionTree, treeAt, rfl⟩ := (conditionAt.grow later).grow latest
  obtain ⟨trees, treesLaid, rfl⟩ := bodyLaid.grow latest
  rw [← same] at treesLaid
  exact readsRest _ third ((extended.trans later).trans latest)
    ⟨.test conditionTree trees tree, ⟨parsed.node, head, branches, _, rfl, treeAt, treesLaid,
      treeLaid⟩, rfl⟩

theorem furtherBranches_skips {leading : List Token} {token : Token}
    (blank : ∀ token ∈ leading, token.kind ∈ [TokenKind.newline])
    (stays : token.kind ∉ [TokenKind.newline]) (severalLines : Bool) (bound : Nat)
    (rest : List Token) (script : Script) :
    furtherBranches (bound + 1) severalLines (.reading (leading ++ token :: rest) script) =
      furtherBranches (bound + 1) severalLines (.reading (token :: rest) script) := by
  rw [furtherBranches, bind_of_ok (skipKinds_reading blank stays rest script),
    bind_of_ok (skipKinds_reading_other stays rest script)]

theorem furtherBranches_elsif {token : Token} (kind : token.kind = .elsifWord)
    (more : rest ≠ []) (severalLines : Bool) (bound : Nat) (script : Script) :
    furtherBranches (bound + 1) severalLines (.reading (token :: rest) script) =
      (do
        let condition ← expression bound
        let (body, severalLines) ← block bound
        let (branches, otherwise) ← furtherBranches bound severalLines
        return ((condition.node, body) :: branches, otherwise)) (.reading rest script) := by
  rw [furtherBranches, bind_of_ok (skipKinds_reading_other (by simp [kind]) rest script),
    accept_reading kind more]

theorem furtherBranches_else {token : Token} (kind : token.kind = .elseWord)
    (more : rest ≠ []) (severalLines : Bool) (bound : Nat) (script : Script) :
    furtherBranches (bound + 1) severalLines (.reading (token :: rest) script) =
      (do
        let (body, severalLines) ← block bound
        closeCompound severalLines
        return ([], some body)) (.reading rest script) := by
  have noElsif : token.kind ≠ .elsifWord := by simp [kind]
  rw [furtherBranches, bind_of_ok (skipKinds_reading_other (by simp [kind]) rest script),
    accept_reading_other noElsif, accept_reading kind more]

theorem furtherBranches_stops {token : Token} (stays : token.kind ∉ [TokenKind.newline])
    (noElsif : token.kind ≠ .elsifWord) (noElse : token.kind ≠ .elseWord) (severalLines : Bool)
    (bound : Nat) (rest : List Token) (script : Script) :
    furtherBranches (bound + 1) severalLines (.reading (token :: rest) script) =
      (do
        closeCompound severalLines
        return ([], none)) (.reading (token :: rest) script) := by
  rw [furtherBranches, bind_of_ok (skipKinds_reading_other stays rest script),
    accept_reading_other noElsif, accept_reading_other noElse]

private theorem reads_missing : WordsRead (.branches .missing) [Word.endWord] := by
  intro tokens spelled ending after script ends
  obtain ⟨endToken, rfl, isEnd⟩ := List.map_eq_singleton_iff.mp spelled
  have kind : endToken.kind = .endWord := congrArg Word.kind isEnd
  have nothing : BranchTerm.missing.Laid script ([], none) script.statements.size
      script.statements.size := ⟨.missing, ⟨rfl, rfl, rfl⟩, rfl⟩
  refine (Reads.of_call (fun bound => ?_) (reads_pure nothing)).mono (Nat.le_refl 4)
  rw [List.singleton_append, furtherBranches_stops (by simp [kind]) (by simp [kind])
    (by simp [kind]),
    bind_of_ok (closeCompound_reading kind ends script)]

private theorem reads_otherwise (read : WordsRead (.sequence false body) words) :
    WordsRead (.branches (.otherwise body))
      (Word.elseWord :: Word.newline :: words ++ [Word.endWord]) := by
  intro tokens spelled ending after script ends
  obtain ⟨most, last, rfl, mostSpelled, lastSpelled⟩ := List.map_eq_append_iff.mp spelled
  obtain ⟨endToken, rfl, isEnd⟩ := List.map_eq_singleton_iff.mp lastSpelled
  obtain ⟨token, behind, rfl, isElse, behindSpelled⟩ := List.map_eq_cons_iff.mp mostSpelled
  obtain ⟨newline, lines, rfl, isNewline, linesSpelled⟩ := List.map_eq_cons_iff.mp behindSpelled
  have readsBlock := reads_closed (congrArg Word.kind isNewline) (congrArg Word.kind isEnd)
    (read lines linesSpelled) ends script
  have reads : Reads (fun bound => do
      let (body, severalLines) ← block bound
      closeCompound severalLines
      return ([], some body)) (BranchTerm.otherwise body).Laid (4 * (newline :: lines).length)
      (newline :: (lines ++ endToken :: ending)) after script := by
    refine Reads.of_block (fun head => pure ([], some head)) readsBlock ?_
    rintro head grown _ ⟨trees, treesLaid, rfl⟩
    have otherwiseLaid : (BranchTerm.otherwise (StatementTree.terms trees)).Laid grown
        ([], some head) script.statements.size grown.statements.size :=
      ⟨.otherwise trees, ⟨head, rfl, rfl, treesLaid⟩, rfl⟩
    exact reads_pure otherwiseLaid
  have called : Reads (furtherBranches · true) (BranchTerm.otherwise body).Laid
      (4 * (newline :: lines).length + 1) (token :: newline :: (lines ++ endToken :: ending))
      after script :=
    Reads.of_call (furtherBranches_else (congrArg Word.kind isElse) (by simp) true · script) reads
  simpa using called.mono (by simp)

private theorem reads_test {lineWords : List Word} (printed : Printed 0 condition words)
    (readLines : WordsRead (.sequence false body) lineWords)
    (begins : Word.BeginWith TokenKind.beginsBranch more)
    (readMore : WordsRead (.branches further) more) :
    WordsRead (.branches (.test condition body further))
      (Word.elsifWord :: words ++ Word.newline :: lineWords ++ more) := by
  intro tokens spelled ending after script ends
  obtain ⟨most, back, rfl, mostSpelled, backSpelled⟩ := List.map_eq_append_iff.mp spelled
  obtain ⟨head, behind, rfl, headSpelled, behindSpelled⟩ := List.map_eq_append_iff.mp mostSpelled
  obtain ⟨token, front, rfl, isElsif, frontSpelled⟩ := List.map_eq_cons_iff.mp headSpelled
  obtain ⟨newline, lines, rfl, isNewline, linesSpelled⟩ := List.map_eq_cons_iff.mp behindSpelled
  have reads : Reads (fun bound => do
      let condition ← expression bound
      let (body, severalLines) ← block bound
      let (branches, otherwise) ← furtherBranches bound severalLines
      return ((condition.node, body) :: branches, otherwise))
      (BranchTerm.test condition body further).Laid
      (4 * (front.length + lines.length + 1 + back.length))
      (front ++ newline :: (lines ++ (back ++ ending))) after script :=
    Reads.of_test pure printed frontSpelled (congrArg Word.kind isNewline)
      (begins_of_spelled begins backSpelled) (Nat.le_refl _) (readLines lines linesSpelled)
      (readMore back backSpelled) ends fun result grown _ resultLaid => reads_pure resultLaid
  have called : Reads (furtherBranches · true) (BranchTerm.test condition body further).Laid
      (4 * (front.length + lines.length + 1 + back.length) + 1)
      (token :: (front ++ newline :: (lines ++ (back ++ ending)))) after script :=
    Reads.of_call (furtherBranches_elsif (congrArg Word.kind isElsif) (by simp) true · script) reads
  simpa using called.mono (by simp; omega)

/-!
## Statements
-/

theorem statement_simple {token : Token} (begins : token.kind.beginsSimple = true) (bound : Nat)
    (rest : List Token) (script : Script) :
    Parse.statement (bound + 1) (.reading (token :: rest) script) =
      (do
        let simple ← simpleStatement bound
        terminator
        return simple) (.reading (token :: rest) script) := by
  rw [Parse.statement, bind_of_ok (peek_reading ..)]
  revert begins
  generalize token.kind = kind
  cases kind <;> intro begins <;> first | rfl | cases begins

theorem statement_branch {token : Token} (kind : token.kind = .ifWord) (more : rest ≠ [])
    (bound : Nat) (script : Script) :
    Parse.statement (bound + 1) (.reading (token :: rest) script) =
      (do
        let condition ← expression bound
        let (body, severalLines) ← block bound
        let (branches, otherwise) ← furtherBranches bound severalLines
        pushStatement (.branch ((condition.node, body) :: branches) otherwise))
        (.reading rest script) := by
  rw [Parse.statement, bind_of_ok (peek_reading ..), kind]
  dsimp only
  rw [bind_of_ok (skip_reading token more script)]

theorem statement_whileLoop {token : Token} (kind : token.kind = .whileWord) (more : rest ≠ [])
    (bound : Nat) (script : Script) :
    Parse.statement (bound + 1) (.reading (token :: rest) script) =
      (do
        let condition ← expression bound
        let (body, severalLines) ← block bound
        closeCompound severalLines
        pushStatement (.whileLoop condition.node body)) (.reading rest script) := by
  rw [Parse.statement, bind_of_ok (peek_reading ..), kind]
  dsimp only
  rw [bind_of_ok (skip_reading token more script)]

theorem statement_forLoop {token item inToken : Token} (kind : token.kind = .forWord)
    (itemKind : item.kind = .identifier) (inKind : inToken.kind = .inWord) (more : rest ≠ [])
    (bound : Nat) (script : Script) :
    Parse.statement (bound + 1) (.reading (token :: item :: inToken :: rest) script) =
      (do
        let iterable ← expression bound
        let (body, severalLines) ← block bound
        closeCompound severalLines
        pushStatement (.forLoop item.lexeme iterable.node body (token.span.merge iterable.span)))
        (.reading rest script) := by
  rw [Parse.statement, bind_of_ok (peek_reading ..), kind]
  dsimp only
  rw [bind_of_ok (skip_reading token (by simp) script),
    bind_of_ok (name_reading itemKind (by simp) script)]
  dsimp only
  rw [bind_of_ok (expect_reading inKind more script)]

theorem statement_define {token name opened : Token} (kind : token.kind = .defWord)
    (nameKind : name.kind = .identifier) (openKind : opened.kind = .leftParenthesis)
    (more : rest ≠ []) (bound : Nat) (script : Script) :
    Parse.statement (bound + 1) (.reading (token :: name :: opened :: rest) script) =
      (do
        let names ← parameters bound
        let (body, severalLines) ← block bound
        closeCompound severalLines
        pushStatement (.define name.lexeme names body)) (.reading rest script) := by
  rw [Parse.statement, bind_of_ok (peek_reading ..), kind]
  dsimp only
  rw [bind_of_ok (skip_reading token (by simp) script),
    bind_of_ok (name_reading nameKind (by simp) script)]
  dsimp only
  rw [bind_of_ok (expect_reading openKind more script)]

theorem statement_record {token name : Token} (kind : token.kind = .recordWord)
    (nameKind : name.kind = .identifier) (more : rest ≠ []) (bound : Nat) (script : Script) :
    Parse.statement (bound + 1) (.reading (token :: name :: rest) script) =
      (do
        let body ← recordBody bound
        pushStatement (.record name.lexeme body (token.span.merge name.span)))
        (.reading rest script) := by
  rw [Parse.statement, bind_of_ok (peek_reading ..), kind]
  dsimp only
  rw [bind_of_ok (skip_reading token (by simp) script),
    bind_of_ok (name_reading nameKind more script)]

theorem recordBody_block {token : Token} (begins : token.kind.beginsBlock = true) (bound : Nat)
    (rest : List Token) (script : Script) :
    recordBody (bound + 1) (.reading (token :: rest) script) =
      (do
        let (body, severalLines) ← block bound
        closeCompound severalLines
        return body) (.reading (token :: rest) script) := by
  rw [recordBody, bind_of_ok (peek_reading ..)]
  revert begins
  generalize token.kind = kind
  cases kind <;> intro begins <;> first | rfl | cases begins

theorem recordBody_missing {token : Token}
    (ends : token.kind = .semicolon ∨ token.kind = .endOfSource) (bound : Nat) (rest : List Token)
    (script : Script) :
    recordBody (bound + 1) (.reading (token :: rest) script) =
      (do
        terminator
        return none) (.reading (token :: rest) script) := by
  rw [recordBody, bind_of_ok (peek_reading ..)]
  rcases ends with same | same <;> rw [same]

private theorem reads_simple (printed : SimplePrinted statement words) :
    WordsRead (.statement statement) words := by
  intro tokens spelled ending after script ends
  obtain ⟨following, rest, rfl, terminates⟩ := ends.opens
  have reads : Reads (fun bound => do
      let simple ← simpleStatement bound
      terminator
      return simple) statement.Laid (4 * tokens.length) (tokens ++ following :: rest) after
      script := by
    refine Reads.bind (reads_simpleStatement printed spelled terminates rest script) ?_
    intro this grown _ simpleLaid
    exact Reads.of_step (fun _ => bind_of_ok (terminator_reading ends grown))
      (reads_pure simpleLaid)
  refine Reads.of_call (fun bound => ?_) reads
  obtain ⟨token, others, rfl, begins⟩ := begins_of_spelled printed.begins spelled
  exact statement_simple begins bound _ script

private theorem reads_branch {lineWords : List Word} (printed : Printed 0 condition words)
    (readLines : WordsRead (.sequence false body) lineWords)
    (begins : Word.BeginWith TokenKind.beginsBranch more)
    (readMore : WordsRead (.branches further) more) :
    WordsRead (.statement (.branch (.test condition body further)))
      (Word.ifWord :: words ++ Word.newline :: lineWords ++ more) := by
  intro tokens spelled ending after script ends
  obtain ⟨most, back, rfl, mostSpelled, backSpelled⟩ := List.map_eq_append_iff.mp spelled
  obtain ⟨head, behind, rfl, headSpelled, behindSpelled⟩ := List.map_eq_append_iff.mp mostSpelled
  obtain ⟨token, front, rfl, isIf, frontSpelled⟩ := List.map_eq_cons_iff.mp headSpelled
  obtain ⟨newline, lines, rfl, isNewline, linesSpelled⟩ := List.map_eq_cons_iff.mp behindSpelled
  have kind : token.kind = .ifWord := congrArg Word.kind isIf
  have reads : Reads (fun bound => do
      let condition ← expression bound
      let (body, severalLines) ← block bound
      let (branches, otherwise) ← furtherBranches bound severalLines
      pushStatement (.branch ((condition.node, body) :: branches) otherwise))
      (StatementTerm.branch (.test condition body further)).Laid
      (4 * (front.length + lines.length + 1 + back.length))
      (front ++ newline :: (lines ++ (back ++ ending))) after script := by
    refine Reads.of_test (fun result => pushStatement (.branch result.1 result.2)) printed
      frontSpelled (congrArg Word.kind isNewline) (begins_of_spelled begins backSpelled)
      (Nat.le_refl _) (readLines lines linesSpelled) (readMore back backSpelled) ends ?_
    rintro ⟨branches, otherwise⟩ grown _ ⟨tree, treeLaid, same⟩
    have built : StatementTree.BuiltFrom grown script.statements.size grown.statements.size
        (.branch tree) (.branch branches otherwise) := ⟨branches, otherwise, rfl, treeLaid⟩
    exact reads_pushStatement built (congrArg StatementTerm.branch same)
  have called : Reads Parse.statement (StatementTerm.branch (.test condition body further)).Laid
      (4 * (front.length + lines.length + 1 + back.length) + 1)
      (token :: (front ++ newline :: (lines ++ (back ++ ending)))) after script := by
    exact Reads.of_call (statement_branch kind (by simp) · script) reads
  simpa using called.mono (by simp; omega)

theorem noPower_of_beginsBlock {kind : TokenKind} (begins : kind.beginsBlock = true) :
    kind.leftPower = 0 := by
  revert begins
  cases kind <;> decide

/-- An expression and the one block behind it. -/
private theorem Reads.of_headed (production : ParsedExpression → Option StatementRef → Parse α)
    (printed : Printed 0 condition words) (frontSpelled : front.map Token.word = words)
    (begins : ∃ token others, back = token :: others ∧ token.kind.beginsBlock = true)
    (enough : 4 * (front.length + back.length) ≤ cost) (read : PhraseReads (.block body) back)
    (ends : Ends ending after)
    (readsRest : ∀ (parsed : ParsedExpression) head grown, script.Extends grown →
      condition.At grown parsed.node →
      StatementTerm.BlockLaid body grown head script.statements.size grown.statements.size →
      Reads (fun _ => production parsed head)
        (fun final result _ stop => laid final result script.statements.size stop) cost after after
        grown) :
    Reads (fun bound => do
      let condition ← expression bound
      let (body, severalLines) ← block bound
      closeCompound severalLines
      production condition body) laid cost (front ++ (back ++ ending)) after script := by
  obtain ⟨token, others, rfl, begins⟩ := begins
  have noPower := noPower_of_beginsBlock begins
  refine Reads.bind ((reads_expression printed frontSpelled noPower _ script).mono (by omega)) ?_
  rintro parsed first extended ⟨same, conditionAt⟩
  obtain ⟨middle, reads⟩ := read ending after first ends
  refine Reads.of_block (production parsed) (reads.mono (by omega)) ?_
  intro head second later bodyLaid
  rw [← same] at bodyLaid
  exact readsRest parsed head second (extended.trans later) (conditionAt.grow later) bodyLaid

private theorem reads_whileLoop (printed : Printed 0 condition words)
    (begins : Word.BeginWith TokenKind.beginsBlock more) (read : WordsRead (.block body) more) :
    WordsRead (.statement (.whileLoop condition body)) (Word.whileWord :: words ++ more) := by
  intro tokens spelled ending after script ends
  obtain ⟨head, back, rfl, headSpelled, backSpelled⟩ := List.map_eq_append_iff.mp spelled
  obtain ⟨token, front, rfl, isWhile, frontSpelled⟩ := List.map_eq_cons_iff.mp headSpelled
  have kind : token.kind = .whileWord := congrArg Word.kind isWhile
  have begins := begins_of_spelled begins backSpelled
  have reads : Reads (fun bound => do
      let condition ← expression bound
      let (body, severalLines) ← block bound
      closeCompound severalLines
      pushStatement (.whileLoop condition.node body))
      (StatementTerm.whileLoop condition body).Laid (4 * (front.length + back.length))
      (front ++ (back ++ ending)) after script := by
    refine Reads.of_headed (fun condition head => pushStatement (.whileLoop condition.node head))
      printed frontSpelled begins (Nat.le_refl _) (read back backSpelled) ends ?_
    rintro parsed head grown _ ⟨tree, treeAt, rfl⟩ ⟨trees, treesLaid, rfl⟩
    have built : StatementTree.BuiltFrom grown script.statements.size grown.statements.size
        (.whileLoop tree trees) (.whileLoop parsed.node head) :=
      ⟨parsed.node, head, rfl, treeAt, treesLaid⟩
    exact reads_pushStatement built rfl
  have called : Reads Parse.statement (StatementTerm.whileLoop condition body).Laid
      (4 * (front.length + back.length) + 1) (token :: (front ++ (back ++ ending))) after
      script := by
    obtain ⟨first, others, rfl, _⟩ := begins
    exact Reads.of_call (statement_whileLoop kind (by simp) · script) reads
  simpa using called.mono (by simp)

private theorem reads_forLoop {item : String} (printed : Printed 0 condition words)
    (begins : Word.BeginWith TokenKind.beginsBlock more) (read : WordsRead (.block body) more) :
    WordsRead (.statement (.forLoop item condition body))
      (Word.forWord :: .name item :: Word.inWord :: words ++ more) := by
  intro tokens spelled ending after script ends
  obtain ⟨head, back, rfl, headSpelled, backSpelled⟩ := List.map_eq_append_iff.mp spelled
  obtain ⟨token, head, rfl, isFor, headSpelled⟩ := List.map_eq_cons_iff.mp headSpelled
  obtain ⟨name, head, rfl, isItem, headSpelled⟩ := List.map_eq_cons_iff.mp headSpelled
  obtain ⟨inToken, front, rfl, isIn, frontSpelled⟩ := List.map_eq_cons_iff.mp headSpelled
  obtain rfl : name.lexeme = item := congrArg Word.lexeme isItem
  have kind : token.kind = .forWord := congrArg Word.kind isFor
  have inKind : inToken.kind = .inWord := congrArg Word.kind isIn
  have begins := begins_of_spelled begins backSpelled
  have reads : Reads (fun bound => do
      let iterable ← expression bound
      let (body, severalLines) ← block bound
      closeCompound severalLines
      pushStatement (.forLoop name.lexeme iterable.node body (token.span.merge iterable.span)))
      (StatementTerm.forLoop name.lexeme condition body).Laid (4 * (front.length + back.length))
      (front ++ (back ++ ending)) after script := by
    refine Reads.of_headed (fun iterable head => pushStatement
      (.forLoop name.lexeme iterable.node head (token.span.merge iterable.span)))
      printed frontSpelled begins (Nat.le_refl _) (read back backSpelled) ends ?_
    rintro parsed head grown _ ⟨tree, treeAt, rfl⟩ ⟨trees, treesLaid, rfl⟩
    have built : StatementTree.BuiltFrom grown script.statements.size grown.statements.size
        (.forLoop name.lexeme tree trees (token.span.merge parsed.span))
        (.forLoop name.lexeme parsed.node head (token.span.merge parsed.span)) :=
      ⟨parsed.node, head, rfl, treeAt, treesLaid⟩
    exact reads_pushStatement built rfl
  have called : Reads Parse.statement (StatementTerm.forLoop name.lexeme condition body).Laid
      (4 * (front.length + back.length) + 1)
      (token :: name :: inToken :: (front ++ (back ++ ending))) after script := by
    obtain ⟨first, others, rfl, _⟩ := begins
    exact Reads.of_call
      (statement_forLoop kind (congrArg Word.kind isItem) inKind (by simp) · script) reads
  simpa using called.mono (by simp; omega)

private theorem parameters_reading {names : List String}
    (spelled : tokens.map Token.word = Word.names names) {close : Token}
    (closes : close.kind = .rightParenthesis) (more : rest ≠ []) (script : Script) {bound : Nat}
    (enough : tokens.length < bound) :
    parameters bound (.reading (tokens ++ close :: rest) script) =
      .ok (names, .reading rest script) := by
  obtain ⟨bound, rfl⟩ : ∃ fewer, bound = fewer + 1 := ⟨bound - 1, by omega⟩
  induction names generalizing tokens bound with
  | nil =>
      obtain rfl : tokens = [] := List.map_eq_nil_iff.mp spelled
      rw [parameters, List.nil_append, accept_reading closes more]
      rfl
  | cons name names ih =>
      have begun : ∃ token behind, tokens = token :: behind ∧ token.word = .name name ∧
          behind.map Token.word = (names.map fun name => [Word.name name]).flatMap
            (Word.comma :: ·) := by
        rw [Word.names, List.map_cons, separated_cons] at spelled
        exact List.map_eq_cons_iff.mp spelled
      obtain ⟨token, behind, rfl, isName, behindSpelled⟩ := begun
      have kind : token.kind = .identifier := congrArg Word.kind isName
      obtain rfl : token.lexeme = name := congrArg Word.lexeme isName
      have other : token.kind ≠ .rightParenthesis := by simp [kind]
      rw [parameters, List.cons_append, accept_reading_other other,
        bind_of_ok (name_reading kind (by simp) script)]
      dsimp only
      cases names with
      | nil =>
          obtain rfl : behind = [] := List.map_eq_nil_iff.mp behindSpelled
          have noComma : close.kind ≠ .comma := by simp [closes]
          rw [List.nil_append, accept_reading_other noComma,
            bind_of_ok (expect_reading closes more script)]
          rfl
      | cons next names =>
          obtain ⟨comma, others, rfl, isComma, othersSpelled⟩ :=
            List.map_eq_cons_iff.mp behindSpelled
          have commaKind : comma.kind = .comma := congrArg Word.kind isComma
          simp only [List.length_cons] at enough
          obtain ⟨bound, rfl⟩ : ∃ fewer, bound = fewer + 1 := ⟨bound - 1, by omega⟩
          have restSpelled : others.map Token.word = Word.names (next :: names) := by
            rw [Word.names, List.map_cons, separated_cons]
            exact othersSpelled
          rw [List.cons_append, accept_reading commaKind (by simp),
            bind_of_ok (ih restSpelled bound (by omega))]
          rfl

private theorem reads_define {identifier : String} {names : List String}
    (begins : Word.BeginWith TokenKind.beginsBlock more) (read : WordsRead (.block body) more) :
    WordsRead (.statement (.define identifier names body))
      (Word.defWord :: .name identifier :: Word.leftParenthesis :: Word.names names ++
        Word.rightParenthesis :: more) := by
  intro tokens spelled ending after script ends
  obtain ⟨head, behind, rfl, headSpelled, behindSpelled⟩ := List.map_eq_append_iff.mp spelled
  obtain ⟨token, head, rfl, isDef, headSpelled⟩ := List.map_eq_cons_iff.mp headSpelled
  obtain ⟨name, head, rfl, isName, headSpelled⟩ := List.map_eq_cons_iff.mp headSpelled
  obtain ⟨opened, front, rfl, isOpen, frontSpelled⟩ := List.map_eq_cons_iff.mp headSpelled
  obtain ⟨close, back, rfl, isClose, backSpelled⟩ := List.map_eq_cons_iff.mp behindSpelled
  obtain rfl : name.lexeme = identifier := congrArg Word.lexeme isName
  have kind : token.kind = .defWord := congrArg Word.kind isDef
  have openKind : opened.kind = .leftParenthesis := congrArg Word.kind isOpen
  have closeKind : close.kind = .rightParenthesis := congrArg Word.kind isClose
  have readsBlock := read back backSpelled ending after script ends
  obtain ⟨middle, readsBlock⟩ := readsBlock
  have reads : Reads (fun bound => do
      let (body, severalLines) ← block bound
      closeCompound severalLines
      pushStatement (.define name.lexeme names body))
      (StatementTerm.define name.lexeme names body).Laid (4 * back.length)
      (back ++ ending) after script := by
    refine Reads.of_block (fun head => pushStatement (.define name.lexeme names head)) readsBlock ?_
    rintro head grown _ ⟨trees, treesLaid, rfl⟩
    have built : StatementTree.BuiltFrom grown script.statements.size grown.statements.size
        (.define name.lexeme names head trees) (.define name.lexeme names head) :=
      ⟨rfl, treesLaid⟩
    exact reads_pushStatement built rfl
  -- The parameters need a bound of their own, which only the whole row of tokens gives.
  obtain ⟨result, grown, extended, resultLaid, same⟩ := reads
  refine ⟨result, grown, extended, resultLaid, fun bound enough => ?_⟩
  simp only [List.length_cons, List.length_append] at enough same
  obtain ⟨bound, rfl⟩ : ∃ fewer, bound = fewer + 1 := ⟨bound - 1, by omega⟩
  obtain ⟨first, others, rfl, _⟩ := begins_of_spelled begins backSpelled
  simp only [List.cons_append, List.append_assoc]
  rw [statement_define kind (congrArg Word.kind isName) openKind (by simp),
    bind_of_ok (parameters_reading frontSpelled closeKind (by simp) script (by omega))]
  exact same bound (by omega)

private theorem reads_record {identifier : String}
    (begins : Word.BeginWith TokenKind.beginsBlock more) (read : WordsRead (.block body) more) :
    WordsRead (.statement (.record identifier body))
      (Word.recordWord :: .name identifier :: more) := by
  intro tokens spelled ending after script ends
  obtain ⟨token, others, rfl, isRecord, othersSpelled⟩ := List.map_eq_cons_iff.mp spelled
  obtain ⟨name, back, rfl, isName, backSpelled⟩ := List.map_eq_cons_iff.mp othersSpelled
  obtain rfl : name.lexeme = identifier := congrArg Word.lexeme isName
  have kind : token.kind = .recordWord := congrArg Word.kind isRecord
  obtain ⟨middle, readsBlock⟩ := read back backSpelled ending after script ends
  obtain ⟨first, others, rfl, begins⟩ := begins_of_spelled begins backSpelled
  have readsBody : Reads recordBody (StatementTerm.BlockLaid body)
      (4 * (first :: others).length + 1) (first :: others ++ ending) after script := by
    have reads : Reads (fun bound => do
        let (body, severalLines) ← block bound
        closeCompound severalLines
        return body) (StatementTerm.BlockLaid body) (4 * (first :: others).length)
        (first :: others ++ ending) after script :=
      Reads.of_block pure readsBlock fun head grown _ bodyLaid => reads_pure bodyLaid
    exact Reads.of_call (recordBody_block begins · _ script) reads
  have reads : Reads (fun bound => do
      let body ← recordBody bound
      pushStatement (.record name.lexeme body (token.span.merge name.span)))
      (StatementTerm.record name.lexeme body).Laid (4 * (first :: others).length + 1)
      (first :: others ++ ending) after script := by
    refine Reads.bind readsBody ?_
    rintro head grown _ ⟨trees, treesLaid, rfl⟩
    have built : StatementTree.BuiltFrom grown script.statements.size grown.statements.size
        (.record name.lexeme trees (token.span.merge name.span))
        (.record name.lexeme head (token.span.merge name.span)) := ⟨head, rfl, treesLaid⟩
    exact reads_pushStatement built rfl
  exact (Reads.of_call (statement_record kind (congrArg Word.kind isName) (by simp) · script)
    reads).mono (by simp)

end Parse

open Parse

/-- The words of a printed phrase are read as the phrase. -/
theorem PhrasePrinted.read {phrase : Phrase} {words : List Word}
    (printed : PhrasePrinted phrase words) : WordsRead phrase words := by
  induction printed with
  | simple printed => exact reads_simple printed
  | branch condition _ more linesIH moreIH =>
      exact reads_branch condition linesIH more.begins_branches moreIH
  | whileLoop condition body ih => exact reads_whileLoop condition body.begins_block ih
  | forLoop _ iterable body ih => exact reads_forLoop iterable body.begins_block ih
  | define _ _ body ih => exact reads_define body.begins_block ih
  | record _ body ih => exact reads_record body.begins_block ih
  | line printed => exact reads_line printed
  | lines _ ih => exact reads_lines ih
  | missing => exact reads_missing
  | otherwise _ ih => exact reads_otherwise ih
  | test condition _ more linesIH moreIH =>
      exact reads_test condition linesIH more.begins_branches moreIH
  | nothing separate => exact reads_nothing separate
  | last separate statement ih => exact reads_last separate statement.begins ih
  | followed separate statement separates _ ih moreIH =>
      exact reads_followed separate statement.begins ih separates moreIH

/-!
## Whole sources
-/

/-- The tokens of the source are the words, and nothing is left behind them. -/
def Word.SpelledBy (words : List Word) (source : String) : Prop :=
  ∃ (tokens : List Token) (last : Token), tokens.map Token.word = words ∧
    last.kind = .endOfSource ∧ LexicalItem.scan source = (tokens ++ [last]).map .ok

/-- The source is accepted, and the statements of the script from the first one on spell
the block. -/
def StatementTerm.ReadFrom (block : List StatementTerm) (source : String) : Prop :=
  ∃ script tree, Script.ofSource source = .ok script ∧ script.tree? = some tree ∧
    StatementTree.terms tree = block

theorem PhrasePrinted.spelledBy {phrase : Phrase} {words : List Word}
    (printed : PhrasePrinted phrase words) : Word.SpelledBy words (Word.spaced words) := by
  have scanned := scan_row printed.level.stand
  exact ⟨Word.placed 0 words, _, Word.map_word_placed 0 words, rfl,
    by rw [scanned, Word.scanned, List.map_append]; rfl⟩

/-- At the end of the source the sequence becomes the script. -/
theorem program_reading {bound : Nat} {cursor : Cursor} {row : List StatementRef}
    {last : Token} {grown : Script}
    (rows : Parse.sequence bound [.endOfSource] cursor = .ok (row, .reading [last] grown))
    (ended : last.kind = .endOfSource) :
    program bound cursor =
      .ok ({ grown.link row with first := row.head? }, .reading [last] Script.empty) := by
  unfold program
  rw [bind_of_ok rows, bind_of_ok (expect_reading_last ended grown)]
  rfl

theorem PhrasePrinted.readFrom {block : List StatementTerm} {words : List Word}
    (printed : PhrasePrinted (.sequence true block) words) {source : String}
    (spelledBy : Word.SpelledBy words source) : StatementTerm.ReadFrom block source := by
  obtain ⟨tokens, last, spelled, ended, scanned⟩ := spelledBy
  have closes : last.kind ∈ closers true := by
    rw [ended]
    decide
  obtain ⟨row, grown, _, ⟨trees, rowLaid, same⟩, reads⟩ :=
    printed.read tokens spelled last [] Script.empty closes
  have begun : Cursor.ofSource source = .reading (tokens ++ [last]) Script.empty := by
    simp only [Cursor.ofSource, scanned, Cursor.reading]
  have enough : 4 * tokens.length + 2 < (Cursor.ofSource source).depthBound := by
    simp [begun, Cursor.depthBound, Cursor.reading]
    omega
  have rows : Parse.sequence (Cursor.ofSource source).depthBound [.endOfSource]
      (Cursor.ofSource source) = .ok (row, .reading [last] grown) := by
    rw [begun] at enough ⊢
    exact reads _ enough
  refine ⟨_, trees, ?_, Script.block?_of_laid rowLaid.finish (Nat.le_refl _), same⟩
  unfold Script.ofSource Cursor.finish Cursor.parse
  rw [program_reading rows ended]
  rfl

/-- A block of statements is read back from its words, with a line for each statement or
laid out in any other way. -/
theorem StatementTerm.block_read_back (numeral : Float → List Char) {block : List StatementTerm}
    (printable : StatementTerm.AllPrintable numeral block) :
    PhrasePrinted (.sequence true block) (StatementTerm.allWords numeral block) ∧
      ∀ words, PhrasePrinted (.sequence true block) words →
        Word.SpelledBy words (Word.spaced words) ∧
          ∀ source, Word.SpelledBy words source → StatementTerm.ReadFrom block source :=
  ⟨printable.printed block true, fun _ printed =>
    ⟨printed.spelledBy, fun _ spelledBy => printed.readFrom spelledBy⟩⟩

/-- A conditional with all its parts, a loop on one line in it, and an empty record. -/
theorem StatementTerm.block_read_back_of_conditional :
    ∃ (numeral : Float → List Char) (block : List StatementTerm),
      StatementTerm.AllPrintable numeral block ∧ StatementTerm.ReadFrom block
        "if a \n elsif not b \n while c : pass ; else \n end ; \n record r \n end" := by
  let name (name : String) : Term := .name name
  let loop : StatementTerm := .whileLoop (name "c") [.pass]
  let conditional : StatementTerm :=
    .branch (.test (name "a") [] (.test (.unary .not (name "b")) [loop] (.otherwise [])))
  let block : List StatementTerm := [conditional, .record "r" []]
  have printable : StatementTerm.AllPrintable (fun _ => []) block :=
    ⟨⟨rfl, trivial, rfl, ⟨⟨rfl, trivial, trivial⟩, trivial⟩, trivial⟩, ⟨rfl, trivial⟩, trivial⟩
  have lines {whole : Bool} : PhrasePrinted (.sequence whole []) [] := .nothing (by simp)
  have loopPrinted : PhrasePrinted (.sequence false [loop]) _ :=
    .followed (List.forall_mem_nil _) (.whileLoop (.name rfl) (.line .pass))
      (show Word.semicolon ∈ Word.separators by decide) lines
  have printed : PhrasePrinted (.sequence true block) _ :=
    .followed (List.forall_mem_nil _)
      (.branch (.name rfl) lines (.test (.unary (Nat.zero_le _) (.name rfl)) loopPrinted
        (.otherwise lines)))
      (show Word.semicolon ∈ Word.separators by decide)
      (.last (show ∀ word ∈ [Word.newline], word ∈ Word.separators by decide)
        (.record rfl (.lines lines)))
  obtain ⟨spelledBy, reads⟩ := (StatementTerm.block_read_back _ printable).2 _ printed
  refine ⟨_, block, printable, ?_⟩
  exact reads _ spelledBy

end ScriptEngine
