import ScriptEngine.Proofs.Grammar.ExpressionAcceptance
import ScriptEngine.Proofs.Grammar.StatementRoundTrip

/-!
# Every source of the grammar is accepted

A conditional takes every `elsif` and `else` that stands behind its blocks, empty lines
or not. So a source is read the way it was derived as long as no conditional that could
still take one of them stands at the end of a block that it belongs behind, and is then
accepted. With such a conditional, the block is left without its `end`.

A row is accepted together with what stands behind it. Only a token that is no empty line
shows whether a conditional goes on, so empty lines may be taken with the row in front of
them, or left to what comes next.
-/

set_option autoImplicit false

namespace ScriptEngine

namespace Parse

variable {α β : Type} {good : α → Prop} {cost : Nat} {tokens middle after rest : List Token}
  {following : Token}

/-!
## Simple statements
-/

theorem Accepts.of_reads {production : Nat → Parse α} {laid : Script → α → Nat → Nat → Prop}
    (reads : ∀ script, Reads production laid cost tokens after script) :
    Accepts production (fun _ => True) cost tokens after := by
  intro script
  obtain ⟨result, grown, _, _, same⟩ := reads script
  exact ⟨result, grown, trivial, same⟩

theorem Accepts.imp {production : Nat → Parse α} {better : α → Prop}
    (accepts : Accepts production good cost tokens after)
    (le : ∀ result, good result → better result) :
    Accepts production better cost tokens after := by
  intro script
  obtain ⟨result, grown, fine, same⟩ := accepts script
  exact ⟨result, grown, le result fine, same⟩

theorem accepts_pushStatement (node : Statement) :
    Accepts (fun _ => pushStatement node) (fun _ => True) cost tokens tokens :=
  fun _ => ⟨_, _, trivial, fun _ _ => rfl⟩

/-- Values with commas between them, and what is made of them. -/
theorem accepts_values {values : List Token} (derived : ExpressionSymbol.items.Derives values)
    (ends : following.kind ∈ terminators) (rest : List Token)
    {use : List ExpressionRef → Parse α}
    (accepts : ∀ nodes, Accepts (fun _ => use nodes) good 0 (following :: rest) after) :
    Accepts (fun bound => do
        let value ← expression bound
        let others ← printedRest bound
        use (value.node :: others))
      good (4 * values.length) (values ++ following :: rest) after := by
  have noComma : following.kind ≠ .comma := by
    intro same
    rw [same] at ends
    exact absurd ends (by decide)
  induction length : values.length using Nat.strong_induction_on generalizing values α after with
  | _ length ih =>
  cases derived with
  | last derived =>
      obtain ⟨first, others, rfl, _⟩ := derived.begins nofun
      rw [← length]
      apply Accepts.bind (accepts_expression derived (noPower_of_mem_terminators ends) rest)
      intro value _
      have stops : Accepts printedRest (fun _ => True) 1 (following :: rest) (following :: rest) :=
        Accepts.of_call (fun _ script => accept_reading_other noComma _ _ rest script)
          (accepts_pure trivial)
      apply Accepts.bind (stops.mono (by simp; omega))
      intro nodes _
      exact (accepts _).mono (Nat.zero_le _)
  | @more front others comma derived commaKind othersDerived =>
      have ends : comma.kind.leftPower = 0 := by
        rw [commaKind]
        rfl
      simp only [List.length_append, List.length_cons] at length
      rw [List.append_assoc]
      apply Accepts.bind ((accepts_expression derived ends _).mono (by omega))
      intro value _
      have listed : Accepts (fun bound => do
          let value ← expression bound
          let others ← printedRest bound
          return value.node :: others) (fun _ => True) (4 * others.length)
          (others ++ following :: rest) (following :: rest) :=
        ih others.length (by omega) othersDerived (fun nodes => accepts_pure trivial) rfl
      have goesOn : Accepts printedRest (fun _ => True) (4 * others.length + 1)
          (comma :: (others ++ following :: rest)) (following :: rest) :=
        Accepts.of_call (fun _ script => accept_reading commaKind (by simp) _ _ script) listed
      apply Accepts.bind (goesOn.mono (by omega))
      intro nodes _
      exact (accepts _).mono (Nat.zero_le _)

theorem accepts_expressionAlone {value : List Token}
    (derived : ExpressionSymbol.whole.Derives value) (ends : following.kind ∈ terminators)
    (rest : List Token) :
    Accepts simpleStatement (fun _ => True) (4 * value.length) (value ++ following :: rest)
      (following :: rest) := by
  have accepts : Accepts assignmentOrExpression (fun _ => True) (4 * value.length)
      (value ++ following :: rest) (following :: rest) := by
    apply Accepts.bind (accepts_expression derived (noPower_of_mem_terminators ends) rest)
    intro left _
    refine Accepts.of_step (fun _ script => ?_) (accepts_pushStatement (.expression left.node))
    rw [bind_of_ok (peek_reading ..), assignOperator?_terminators ends]
  obtain ⟨token, back, rfl, begins⟩ := derived.begins nofun
  exact Accepts.of_step (fun bound script => simpleStatement_begins begins bound _ script) accepts

theorem accepts_assignment {token : Token} {target value : List Token} {operator : AssignOperator}
    (targetDerived : ExpressionSymbol.target.Derives target)
    (kind : token.kind = operator.word.kind) (derived : ExpressionSymbol.whole.Derives value)
    (ends : following.kind ∈ terminators) (rest : List Token) :
    Accepts simpleStatement (fun _ => True) (4 * (target ++ token :: value).length)
      (target ++ token :: value ++ following :: rest) (following :: rest) := by
  obtain ⟨isAssign, noPower⟩ := assignOperator?_word operator
  rw [← kind] at isAssign noPower
  rw [List.append_assoc, List.cons_append]
  have accepts : Accepts assignmentOrExpression (fun _ => True)
      (4 * (target ++ token :: value).length) (target ++ token :: (value ++ following :: rest))
      (following :: rest) := by
    apply Accepts.bind ((accepts_target targetDerived noPower _).mono (by simp))
    intro left writable
    obtain ⟨written, same⟩ := Option.isSome_iff_exists.mp writable
    have assigned : Accepts (fun bound => do
        let value ← expression bound
        pushStatement (.assign written operator value.node (left.span.merge value.span)))
        (fun _ => True) (4 * (target ++ token :: value).length) (value ++ following :: rest)
        (following :: rest) := by
      apply Accepts.bind ((accepts_expression derived (noPower_of_mem_terminators ends) rest).mono
        (by simp; omega))
      intro result _
      exact accepts_pushStatement _
    refine Accepts.of_step (fun bound script => ?_) assigned
    rw [bind_of_ok (peek_reading ..), isAssign]
    dsimp only
    rw [bind_of_ok (skip_reading token (by simp) script), same]
  obtain ⟨first, back, rfl, begins⟩ := targetDerived.begins nofun
  exact Accepts.of_step (fun bound script => simpleStatement_begins begins bound _ script) accepts

theorem accepts_print {token : Token} {values : List Token} (kind : token.kind = .printWord)
    (derived : ExpressionSymbol.list.Derives values) (ends : following.kind ∈ terminators)
    (rest : List Token) :
    Accepts simpleStatement (fun _ => True) (4 * (token :: values).length)
      (token :: values ++ following :: rest) (following :: rest) := by
  cases derived with
  | nothing =>
      exact Accepts.of_reads fun script =>
        reads_print kind (List.forall_mem_nil _) (show [].map Token.word = _ from rfl) ends
  | items derived =>
      have accepts := (accepts_values derived ends rest fun nodes =>
        accepts_pushStatement (.print nodes)).mono
          (show 4 * values.length ≤ 4 * (token :: values).length by simp)
      obtain ⟨first, back, rfl, begins⟩ := derived.begins nofun
      refine Accepts.of_step (fun bound script => ?_) accepts
      rw [simpleStatement, List.cons_append, bind_of_ok (peek_reading ..), kind]
      dsimp only
      rw [bind_of_ok (skip_reading token (by simp) script), List.cons_append,
        bind_of_ok (atTerminator_reading _ script),
        decide_eq_false (not_terminator_of_begins begins)]
      rfl

theorem accepts_returnValue {token : Token} {value : List Token}
    (kind : token.kind = .returnWord) (derived : ExpressionSymbol.whole.Derives value)
    (ends : following.kind ∈ terminators) (rest : List Token) :
    Accepts simpleStatement (fun _ => True) (4 * (token :: value).length)
      (token :: value ++ following :: rest) (following :: rest) := by
  have accepts : Accepts (fun bound => do
      let value ← expression bound
      pushStatement (.returnValue (some value.node))) (fun _ => True)
      (4 * (token :: value).length) (value ++ following :: rest) (following :: rest) := by
    apply Accepts.bind ((accepts_expression derived (noPower_of_mem_terminators ends) rest).mono
      (by simp))
    intro result _
    exact accepts_pushStatement _
  obtain ⟨first, back, rfl, begins⟩ := derived.begins nofun
  refine Accepts.of_step (fun bound script => ?_) accepts
  rw [simpleStatement, List.cons_append, bind_of_ok (peek_reading ..), kind]
  dsimp only
  rw [bind_of_ok (skip_reading token (by simp) script), List.cons_append,
    bind_of_ok (atTerminator_reading _ script), decide_eq_false (not_terminator_of_begins begins)]
  rfl

theorem accepts_simple {row : List Token} (simple : SimpleRow row)
    (ends : following.kind ∈ terminators) (rest : List Token) :
    Accepts simpleStatement (fun _ => True) (4 * row.length) (row ++ following :: rest)
      (following :: rest) := by
  cases simple with
  | expression derived => exact accepts_expressionAlone derived ends rest
  | print kind derived => exact accepts_print kind derived ends rest
  | assign _ target kind value => exact accepts_assignment target kind value ends rest
  | breakLoop kind => exact .of_reads fun _ => reads_breakLoop kind ends
  | @breakLoops _ number digits kind numberKind spelled all small =>
      have isNumber : number.word = .number digits := by
        simp only [Token.word, Word.number, numberKind, spelled]
      exact .of_reads fun _ => reads_breakLoops kind all small isNumber
  | continueLoop kind => exact .of_reads fun _ => reads_continueLoop kind
  | returnNothing kind => exact .of_reads fun _ => reads_returnNothing kind ends
  | returnValue kind derived => exact accepts_returnValue kind derived ends rest
  | pass kind => exact .of_reads fun _ => reads_pass kind
  | delete kind nameKind => exact .of_reads fun _ => reads_delete kind nameKind

/-- The names of parameters. -/
theorem accepts_parameters {names : List Token} (named : NamesRow names) {close : Token}
    (closes : close.kind = .rightParenthesis) (more : rest ≠ []) :
    Accepts parameters (fun _ => True) (names.length + 1) (names ++ close :: rest) rest := by
  induction named with
  | nothing =>
      exact Accepts.of_call (fun _ script => accept_reading closes more _ _ script)
        (accepts_return [])
  | @last token kind =>
      have closed : Accepts (fun _ => do
          let _ ← expect .rightParenthesis
          return [token.lexeme]) (fun _ => True) 1 (close :: rest) rest := by
        apply Accepts.bind (accepts_expect closes more)
        intro _ _
        exact accepts_pure trivial
      refine Accepts.of_call (fun bound script => ?_) closed
      rw [parameters, List.singleton_append, accept_reading_other (by simp [kind]),
        bind_of_ok (name_reading kind (by simp) script)]
      exact accept_reading_other (by simp [closes]) _ _ rest script
  | @more token comma next others kind commaKind _ ih =>
      have goesOn : Accepts (fun bound => do
          let others ← parameters bound
          return token.lexeme :: others) (fun _ => True) ((next :: others).length + 1)
          (next :: others ++ close :: rest) rest := by
        apply Accepts.bind ih
        intro _ _
        exact accepts_pure trivial
      refine (Accepts.of_call (fun bound script => ?_) goesOn).mono (by simp)
      rw [parameters, List.cons_append, accept_reading_other (by simp [kind]),
        bind_of_ok (name_reading kind (by simp) script)]
      exact accept_reading commaKind (by simp) _ _ script

/-!
## What stands behind a row
-/

/-- Empty lines and another token stand behind a row. -/
structure Behind (closed dangles : Bool) (blank : List Token) (following : Token) : Prop where
  lines : BlankLines blank
  stays : following.kind ≠ .newline
  ended : closed = false → blank = [] ∧ following.kind = .endOfSource
  apart : dangles = true → following.kind.leadsOn = false

/-- A block of this form leaves the tokens in the middle, and its compound goes on behind
them. -/
def Closes (middle after : List Token) (result : Option StatementRef × Bool) : Prop :=
  ∀ script, closeCompound result.2 (.reading middle script) = .ok ((), .reading after script)

/-- What reading a row of the symbol gives. Rows of statements take empty lines behind them
or leave them, and a sequence is read with all that is read behind it. -/
def StatementAccepted : StatementSymbol → List Token → Prop
  | .statement closed dangles, row =>
      ∀ blank following rest, Behind closed dangles blank following →
        ∃ left, BlankLines left ∧ Accepts Parse.statement (fun _ => True) (4 * row.length + 1)
          (row ++ (blank ++ following :: rest)) (left ++ following :: rest)
  | .sequence closed dangles, row =>
      ∀ whole following rest after cost, Behind closed dangles [] following →
        following.kind ∉ [TokenKind.newline, .semicolon] → 2 ≤ cost →
        Accepts (sequence · (closers whole)) (fun _ => True) cost (following :: rest) after →
        Accepts (sequence · (closers whole)) (fun _ => True) (cost + 4 * row.length)
          (row ++ following :: rest) after
  | .body closed, row =>
      ∀ blank following rest, Behind closed false blank following → ∃ middle,
        Accepts block (Closes middle (blank ++ following :: rest)) (4 * row.length)
          (row ++ (blank ++ following :: rest)) middle
  | .branches closed dangles, row =>
      ∀ blank following rest, Behind closed dangles blank following →
        ∃ left middle severalLines, BlankLines left ∧
          Accepts block (fun result => result.2 = severalLines) (4 * row.length)
            (row ++ (blank ++ following :: rest)) middle ∧
          Accepts (furtherBranches · severalLines) (fun _ => True) (4 * row.length) middle
            (left ++ following :: rest)
  | .further closed dangles, row =>
      ∀ leading severalLines blank following rest, BlankLines leading →
        Behind closed dangles blank following →
        ∃ left, BlankLines left ∧
          Accepts (furtherBranches · severalLines) (fun _ => True) (4 * row.length)
            (leading ++ (row ++ (blank ++ following :: rest))) (left ++ following :: rest)

variable {closed dangles : Bool} {row inner ending blank : List Token}

theorem Behind.ends (behind : Behind closed dangles blank following)
    (terminates : Terminator closed ending) (rest : List Token) :
    Ends (ending ++ (blank ++ following :: rest)) (blank ++ following :: rest) := by
  cases terminates with
  | separator separates => exact .separator separates (by simp)
  | source =>
      obtain ⟨rfl, ended⟩ := behind.ended rfl
      exact .source rest ended

theorem accepts_terminator (ends : Ends tokens after) :
    Accepts (fun _ => terminator) (fun _ => True) cost tokens after :=
  fun script => ⟨(), script, trivial, fun _ _ => terminator_reading ends script⟩

theorem accepts_terminated (simple : SimpleRow row) (terminates : Terminator closed ending)
    (behind : Behind closed dangles blank following) (rest : List Token)
    {use : StatementRef → Parse α}
    (accepts : ∀ this, Accepts (fun _ => use this) good 0 (blank ++ following :: rest) after) :
    Accepts (fun bound => do
        let simple ← simpleStatement bound
        terminator
        use simple)
      good (4 * row.length) (row ++ (ending ++ (blank ++ following :: rest))) after := by
  have ends := behind.ends terminates rest
  obtain ⟨first, others, same, terminator⟩ := ends.opens
  rw [same] at ends ⊢
  apply Accepts.bind (accepts_simple simple terminator others)
  intro this _
  apply Accepts.bind (accepts_terminator ends)
  intro _ _
  exact (accepts this).mono (Nat.zero_le _)

/-!
## Sequences
-/

theorem accepts_closer {whole : Bool} (closes : following.kind ∈ closers whole)
    (rest : List Token) :
    Accepts (sequence · (closers whole)) (fun _ => True) 2 (following :: rest)
      (following :: rest) := by
  refine Accepts.of_call (fun bound script => ?_) (accepts_return [])
  rw [sequence,
    bind_of_ok (skipKinds_reading_other (not_separator_of_mem_closers closes) rest script),
    bind_of_ok (peek_reading ..), if_pos (by simpa using closes)]

/-- Empty lines in front of a statement change nothing. -/
theorem Accepts.skipping {ends : List TokenKind} {leading : List Token}
    (accepts : Accepts (sequence · ends) (fun _ => True) cost (following :: rest) after)
    (lines : BlankLines leading)
    (stays : following.kind ∉ [TokenKind.newline, .semicolon]) :
    Accepts (sequence · ends) (fun _ => True) cost (leading ++ following :: rest) after := by
  have separators (token : Token) (member : token ∈ leading) :
      token.kind ∈ [TokenKind.newline, .semicolon] := by
    rw [lines token member]
    exact List.mem_cons_self
  refine Accepts.of_step (fun bound script => ?_) accepts
  cases bound with
  | zero => rfl
  | succ bound =>
      rw [sequence, bind_of_ok (skipKinds_reading separators stays rest script),
        bind_of_ok (skipKinds_reading_other stays rest script)]

theorem accepts_followed {whole : Bool}
    (begins : Token.BeginWith TokenKind.beginsStatement row)
    (accepted : StatementAccepted (.statement closed dangles) row)
    (behind : Behind closed dangles blank following)
    (stays : following.kind ∉ [TokenKind.newline, .semicolon]) (enough : 2 ≤ cost)
    (acceptsRest : Accepts (sequence · (closers whole)) (fun _ => True) cost (following :: rest)
      after) :
    Accepts (sequence · (closers whole)) (fun _ => True) (cost + 4 * row.length)
      (row ++ (blank ++ following :: rest)) after := by
  obtain ⟨left, lines, accepts⟩ := accepted blank following rest behind
  obtain ⟨first, others, rfl, begins⟩ := begins
  have reads : Accepts (fun bound => do
      let first ← statement bound
      let others ← sequence bound (closers whole)
      return first :: others) (fun _ => True) (cost + 4 * others.length + 3)
      (first :: others ++ (blank ++ following :: rest)) after := by
    apply Accepts.bind (accepts.mono (by simp only [List.length_cons]; omega))
    intro this _
    apply Accepts.bind ((acceptsRest.skipping lines stays).mono (by omega))
    intro row _
    exact accepts_pure trivial
  refine Accepts.of_call (fun bound script => ?_) reads
  exact sequence_begins (List.forall_mem_nil _) begins whole bound _ script

/-!
## Blocks
-/

theorem accepts_line {colon : Token} (kind : colon.kind = .colon) (simple : SimpleRow row)
    (terminates : Terminator closed ending) (behind : Behind closed dangles blank following)
    (rest : List Token) :
    Accepts block (fun result => result.2 = false) (4 * row.length + 1)
      (colon :: (row ++ (ending ++ (blank ++ following :: rest))))
      (blank ++ following :: rest) := by
  have accepts : Accepts (fun bound => do
      let simple ← simpleStatement bound
      terminator
      return (some simple, false)) (fun result => result.2 = false) (4 * row.length)
      (row ++ (ending ++ (blank ++ following :: rest))) (blank ++ following :: rest) :=
    accepts_terminated simple terminates behind rest fun _ => accepts_pure rfl
  refine Accepts.of_call (fun bound script => ?_) accepts
  rw [block, accept_reading kind (by simp)]

theorem accepts_lines {newline : Token} (kind : newline.kind = .newline)
    (accepted : StatementAccepted (.sequence true dangles) inner)
    (closes : following.kind ∈ blockEnds)
    (apart : dangles = true → following.kind.leadsOn = false) (rest : List Token) :
    Accepts block (fun result => result.2 = true) (4 * inner.length + 3)
      (newline :: (inner ++ following :: rest)) (following :: rest) := by
  have closes : following.kind ∈ closers false := closes
  have stays := not_separator_of_mem_closers closes
  have behind : Behind true dangles [] following :=
    ⟨BlankLines.nil, fun same => stays (by simp [same]), nofun, apart⟩
  have accepts : Accepts (fun bound => do
      let statements ← sequence bound blockEnds
      let first ← link statements
      return (first, true)) (fun result => result.2 = true) (2 + 4 * inner.length)
      (inner ++ following :: rest) (following :: rest) := by
    apply Accepts.bind (accepted false following rest _ 2 behind stays (Nat.le_refl 2)
      (accepts_closer closes rest))
    intro row _ script
    exact ⟨_, _, rfl, fun _ _ => rfl⟩
  refine (Accepts.of_call (fun bound script => ?_) accepts).mono (by omega)
  have noColon : newline.kind ≠ .colon := by simp [kind]
  rw [block, accept_reading_other noColon, bind_of_ok (next_reading newline (by simp) script), kind]

/-- A compound goes on behind its last block and the `end` of it. -/
theorem accepts_compound {use : Option StatementRef → Parse α}
    (accepted : StatementAccepted (.body closed) row) (behind : Behind closed false blank following)
    (rest : List Token)
    (accepts : ∀ head, Accepts (fun _ => use head) good 0 (blank ++ following :: rest)
      (blank ++ following :: rest)) :
    Accepts (fun bound => do
        let (body, severalLines) ← block bound
        closeCompound severalLines
        use body)
      good (4 * row.length) (row ++ (blank ++ following :: rest)) (blank ++ following :: rest) := by
  obtain ⟨middle, reads⟩ := accepted blank following rest behind
  apply Accepts.bind reads
  intro result closes
  refine Accepts.of_step (fun _ script => ?_) ((accepts result.1).mono (Nat.zero_le _))
  exact bind_of_ok (closes script)

theorem accepted_line {colon : Token} (kind : colon.kind = .colon) (simple : SimpleRow row)
    (terminates : Terminator closed ending) :
    StatementAccepted (.body closed) (colon :: (row ++ ending)) := by
  intro blank following rest behind
  have accepts := accepts_line kind simple terminates behind rest
  refine ⟨blank ++ following :: rest, ?_⟩
  rw [List.cons_append, List.append_assoc]
  refine (accepts.imp fun result single script => ?_).mono (by simp)
  rw [single]
  rfl

theorem accepted_lines {newline endToken : Token} (kind : newline.kind = .newline)
    (accepted : StatementAccepted (.sequence true dangles) inner)
    (endKind : endToken.kind = .endWord) (terminates : Terminator closed ending) :
    StatementAccepted (.body closed) (newline :: (inner ++ endToken :: ending)) := by
  intro blank following rest behind
  have closes : endToken.kind ∈ blockEnds := by simp [endKind, blockEnds]
  have accepts := accepts_lines kind accepted closes (fun _ => by rw [endKind]; rfl)
    (ending ++ (blank ++ following :: rest))
  refine ⟨endToken :: (ending ++ (blank ++ following :: rest)), ?_⟩
  rw [List.cons_append, List.append_assoc, List.cons_append]
  refine (accepts.imp fun result several script => ?_).mono (by simp; omega)
  rw [several]
  exact closeCompound_reading endKind (behind.ends terminates rest) script

/-!
## Branches
-/

/-- Behind the last block of a conditional without `else`. -/
theorem accepts_lastBranch {token : Token} {leading : List Token} {severalLines : Bool}
    (empty : BlankLines leading) (stays : token.kind ≠ .newline)
    (apart : token.kind.leadsOn = false)
    (closes : ∀ script, closeCompound severalLines (.reading (token :: rest) script) =
      .ok ((), .reading after script)) :
    Accepts (furtherBranches · severalLines) (fun _ => True) 1 (leading ++ token :: rest)
      after := by
  have stays : token.kind ∉ [TokenKind.newline] := by simpa using stays
  have other : token.kind ≠ .elsifWord ∧ token.kind ≠ .elseWord := by
    constructor <;> intro same <;> rw [same] at apart <;> cases apart
  refine Accepts.of_call (fun bound script => ?_) (accepts_return ([], none))
  rw [furtherBranches_skips empty.kinds stays, furtherBranches_stops stays other.1 other.2,
    bind_of_ok (closes script)]

theorem accepted_lastLine {colon : Token} (kind : colon.kind = .colon) (simple : SimpleRow row)
    (terminates : Terminator closed ending) :
    StatementAccepted (.branches closed true) (colon :: (row ++ ending)) := by
  intro blank following rest behind
  have stops : Accepts (furtherBranches · false) (fun _ => True) 1
      (blank ++ following :: rest) (following :: rest) :=
    accepts_lastBranch behind.lines behind.stays (behind.apart rfl) fun _ => rfl
  refine ⟨[], blank ++ following :: rest, false, BlankLines.nil, ?_, stops.mono (by simp; omega)⟩
  rw [List.cons_append, List.append_assoc]
  exact (accepts_line kind simple terminates behind rest).mono (by simp)

theorem accepted_lastLines {newline endToken : Token} {within : Bool}
    (kind : newline.kind = .newline) (accepted : StatementAccepted (.sequence true within) inner)
    (endKind : endToken.kind = .endWord) (terminates : Terminator closed ending) :
    StatementAccepted (.branches closed false) (newline :: (inner ++ endToken :: ending)) := by
  intro blank following rest behind
  have closes : endToken.kind ∈ blockEnds := by simp [endKind, blockEnds]
  have accepts := accepts_lines kind accepted closes (fun _ => by rw [endKind]; rfl)
    (ending ++ (blank ++ following :: rest))
  have stops : Accepts (furtherBranches · true) (fun _ => True) 1
      ([] ++ endToken :: (ending ++ (blank ++ following :: rest))) (blank ++ following :: rest) :=
    accepts_lastBranch BlankLines.nil (by simp [endKind]) (by rw [endKind]; rfl)
      (closeCompound_reading endKind (behind.ends terminates rest))
  refine ⟨blank, endToken :: (ending ++ (blank ++ following :: rest)), true, behind.lines, ?_,
    stops.mono (by simp; omega)⟩
  rw [List.cons_append, List.append_assoc, List.cons_append]
  exact accepts.mono (by simp; omega)

theorem accepted_lineThen {colon : Token} {lines others : List Token} (kind : colon.kind = .colon)
    (simple : SimpleRow row) (terminates : Terminator true ending) (empty : BlankLines lines)
    (begins : Token.BeginWith TokenKind.leadsOn others)
    (accepted : StatementAccepted (.further closed dangles) others) :
    StatementAccepted (.branches closed dangles)
      (colon :: (row ++ (ending ++ (lines ++ others)))) := by
  intro blank following rest behind
  obtain ⟨left, leftEmpty, accepts⟩ := accepted lines false blank following rest empty behind
  obtain ⟨first, more, rfl, leads⟩ := begins
  have stays : first.kind ≠ .newline := by
    intro same
    rw [same] at leads
    cases leads
  have between : Behind true false lines first := ⟨empty, stays, nofun, nofun⟩
  have acceptsLine := accepts_line kind simple terminates between
    (more ++ (blank ++ following :: rest))
  refine ⟨left, _, false, leftEmpty, ?_, accepts.mono (by simp; omega)⟩
  simp only [List.cons_append, List.append_assoc] at acceptsLine ⊢
  exact acceptsLine.mono (by simp)

theorem accepted_linesThen {newline : Token} {others : List Token}
    (kind : newline.kind = .newline) (accepted : StatementAccepted (.sequence true false) inner)
    (begins : Token.BeginWith TokenKind.leadsOn others)
    (acceptedRest : StatementAccepted (.further closed dangles) others) :
    StatementAccepted (.branches closed dangles) (newline :: (inner ++ others)) := by
  intro blank following rest behind
  obtain ⟨left, leftEmpty, accepts⟩ :=
    acceptedRest [] true blank following rest BlankLines.nil behind
  obtain ⟨first, more, rfl, leads⟩ := begins
  have closes : first.kind ∈ blockEnds := by
    revert leads
    generalize first.kind = kind
    cases kind <;> decide
  have acceptsLines := accepts_lines kind accepted closes nofun
    (more ++ (blank ++ following :: rest))
  refine ⟨left, _, true, leftEmpty, ?_, accepts.mono (by simp; omega)⟩
  simp only [List.cons_append, List.append_assoc, List.nil_append] at acceptsLines ⊢
  exact acceptsLines.mono (by simp; omega)

/-- A condition and what stands behind it. -/
theorem accepts_test {condition others : List Token}
    {use : List (ExpressionRef × Option StatementRef) × Option (Option StatementRef) → Parse α}
    (derived : ExpressionSymbol.whole.Derives condition)
    (begins : Token.BeginWith TokenKind.beginsBlock others)
    (accepted : StatementAccepted (.branches closed dangles) others)
    (behind : Behind closed dangles blank following) (rest : List Token)
    (accepts : ∀ branches tokens, Accepts (fun _ => use branches) good 0 tokens tokens) :
    ∃ left, BlankLines left ∧ Accepts (fun bound => do
        let condition ← expression bound
        let (body, severalLines) ← block bound
        let (branches, otherwise) ← furtherBranches bound severalLines
        use ((condition.node, body) :: branches, otherwise))
      good (4 * (condition ++ others).length)
      (condition ++ (others ++ (blank ++ following :: rest))) (left ++ following :: rest) := by
  obtain ⟨left, middle, severalLines, empty, acceptsBlock, acceptsRest⟩ :=
    accepted blank following rest behind
  obtain ⟨first, more, rfl, begins⟩ := begins
  refine ⟨left, empty, ?_⟩
  apply Accepts.bind ((accepts_expression derived (noPower_of_beginsBlock begins) _).mono (by simp))
  intro parsed _
  apply Accepts.bind (acceptsBlock.mono (by simp))
  intro body same
  subst same
  apply Accepts.bind (acceptsRest.mono (by simp))
  intro branches _
  exact (accepts _ _).mono (Nat.zero_le _)

theorem accepted_elsif {token : Token} {condition others : List Token}
    (kind : token.kind = .elsifWord) (derived : ExpressionSymbol.whole.Derives condition)
    (begins : Token.BeginWith TokenKind.beginsBlock others)
    (accepted : StatementAccepted (.branches closed dangles) others) :
    StatementAccepted (.further closed dangles) (token :: (condition ++ others)) := by
  intro leading severalLines blank following rest empty behind
  obtain ⟨left, leftEmpty, accepts⟩ :=
    accepts_test derived begins accepted behind rest fun branches _ => accepts_return branches
  refine ⟨left, leftEmpty, (Accepts.of_call (fun bound script => ?_) accepts).mono (by simp)⟩
  rw [List.cons_append, List.append_assoc, furtherBranches_skips empty.kinds (by simp [kind]),
    furtherBranches_elsif kind (by simp)]

theorem accepted_otherwise {token : Token} {body : List Token} (kind : token.kind = .elseWord)
    (accepted : StatementAccepted (.body closed) body) :
    StatementAccepted (.further closed false) (token :: body) := by
  intro leading severalLines blank following rest empty behind
  have accepts := accepts_compound accepted behind rest fun head =>
    accepts_return (([] : List (ExpressionRef × Option StatementRef)), some head)
  refine ⟨blank, behind.lines,
    (Accepts.of_call (fun bound script => ?_) accepts).mono (by simp)⟩
  rw [List.cons_append, furtherBranches_skips empty.kinds (by simp [kind]),
    furtherBranches_else kind (by simp)]

/-!
## Statements
-/

theorem accepted_simple (simple : SimpleRow row) (terminates : Terminator closed ending) :
    StatementAccepted (.statement closed false) (row ++ ending) := by
  intro blank following rest behind
  have accepts := accepts_terminated simple terminates behind rest accepts_return
  obtain ⟨first, others, rfl, begins⟩ := simple.begins
  rw [List.append_assoc]
  refine ⟨blank, behind.lines, (Accepts.of_call (fun bound script => ?_) accepts).mono (by simp)⟩
  exact statement_simple begins bound _ script

theorem accepted_branch {token : Token} {condition others : List Token}
    (kind : token.kind = .ifWord) (derived : ExpressionSymbol.whole.Derives condition)
    (begins : Token.BeginWith TokenKind.beginsBlock others)
    (accepted : StatementAccepted (.branches closed dangles) others) :
    StatementAccepted (.statement closed dangles) (token :: (condition ++ others)) := by
  intro blank following rest behind
  obtain ⟨left, empty, accepts⟩ := accepts_test derived begins accepted behind rest
    fun result _ => accepts_pushStatement (.branch result.1 result.2)
  refine ⟨left, empty, (Accepts.of_call (fun bound script => ?_) accepts).mono (by simp)⟩
  rw [List.cons_append, List.append_assoc]
  exact statement_branch kind (by simp) bound script

/-- An expression and the one block behind it. -/
theorem accepts_headed {condition body : List Token}
    {use : ParsedExpression → Option StatementRef → Parse α}
    (derived : ExpressionSymbol.whole.Derives condition)
    (begins : Token.BeginWith TokenKind.beginsBlock body)
    (accepted : StatementAccepted (.body closed) body)
    (behind : Behind closed false blank following) (rest : List Token)
    (accepts : ∀ parsed head, Accepts (fun _ => use parsed head) good 0
      (blank ++ following :: rest) (blank ++ following :: rest)) :
    Accepts (fun bound => do
        let condition ← expression bound
        let (body, severalLines) ← block bound
        closeCompound severalLines
        use condition body)
      good (4 * (condition ++ body).length)
      (condition ++ (body ++ (blank ++ following :: rest))) (blank ++ following :: rest) := by
  obtain ⟨first, more, rfl, begins⟩ := begins
  apply Accepts.bind ((accepts_expression derived (noPower_of_beginsBlock begins) _).mono (by simp))
  intro parsed _
  exact (accepts_compound accepted behind rest (accepts parsed)).mono (by simp)

theorem accepted_whileLoop {token : Token} {condition body : List Token}
    (kind : token.kind = .whileWord) (derived : ExpressionSymbol.whole.Derives condition)
    (begins : Token.BeginWith TokenKind.beginsBlock body)
    (accepted : StatementAccepted (.body closed) body) :
    StatementAccepted (.statement closed false) (token :: (condition ++ body)) := by
  intro blank following rest behind
  have accepts := accepts_headed derived begins accepted behind rest fun parsed head =>
    accepts_pushStatement (.whileLoop parsed.node head)
  refine ⟨blank, behind.lines, (Accepts.of_call (fun bound script => ?_) accepts).mono (by simp)⟩
  rw [List.cons_append, List.append_assoc]
  exact statement_whileLoop kind (by simp) bound script

theorem accepted_forLoop {token item inToken : Token} {iterable body : List Token}
    (kind : token.kind = .forWord) (itemKind : item.kind = .identifier)
    (inKind : inToken.kind = .inWord) (derived : ExpressionSymbol.whole.Derives iterable)
    (begins : Token.BeginWith TokenKind.beginsBlock body)
    (accepted : StatementAccepted (.body closed) body) :
    StatementAccepted (.statement closed false)
      (token :: item :: inToken :: (iterable ++ body)) := by
  intro blank following rest behind
  have accepts := accepts_headed derived begins accepted behind rest fun parsed head =>
    accepts_pushStatement
      (.forLoop item.lexeme parsed.node head (token.span.merge parsed.span))
  refine ⟨blank, behind.lines,
    (Accepts.of_call (fun bound script => ?_) accepts).mono (by simp; omega)⟩
  simp only [List.cons_append, List.append_assoc]
  exact statement_forLoop kind itemKind inKind (by simp) bound script

theorem accepted_define {token name opened close : Token} {names body : List Token}
    (kind : token.kind = .defWord) (nameKind : name.kind = .identifier)
    (openKind : opened.kind = .leftParenthesis) (named : NamesRow names)
    (closeKind : close.kind = .rightParenthesis)
    (begins : Token.BeginWith TokenKind.beginsBlock body)
    (accepted : StatementAccepted (.body closed) body) :
    StatementAccepted (.statement closed false)
      (token :: name :: opened :: (names ++ close :: body)) := by
  intro blank following rest behind
  obtain ⟨first, others, rfl, _⟩ := begins
  have accepts : Accepts (fun bound => do
      let names ← parameters bound
      let (body, severalLines) ← block bound
      closeCompound severalLines
      pushStatement (.define name.lexeme names body)) (fun _ => True)
      (4 * (names ++ first :: others).length)
      (names ++ close :: (first :: others ++ (blank ++ following :: rest)))
      (blank ++ following :: rest) := by
    apply Accepts.bind ((accepts_parameters named closeKind (by simp)).mono (by simp; omega))
    intro parameters _
    exact (accepts_compound accepted behind rest fun head =>
      accepts_pushStatement (.define name.lexeme parameters head)).mono (by simp)
  refine ⟨blank, behind.lines,
    (Accepts.of_call (fun bound script => ?_) accepts).mono (by simp; omega)⟩
  simp only [List.cons_append, List.append_assoc]
  exact statement_define kind nameKind openKind (by simp) bound script

theorem accepted_record {token name : Token} {body : List Token}
    (kind : token.kind = .recordWord) (nameKind : name.kind = .identifier)
    (begins : Token.BeginWith TokenKind.beginsBlock body)
    (accepted : StatementAccepted (.body closed) body) :
    StatementAccepted (.statement closed false) (token :: name :: body) := by
  intro blank following rest behind
  have acceptsBlock := accepts_compound accepted behind rest accepts_return
  obtain ⟨first, others, rfl, begins⟩ := begins
  have accepts : Accepts (fun bound => do
      let body ← recordBody bound
      pushStatement (.record name.lexeme body (token.span.merge name.span))) (fun _ => True)
      (4 * (first :: others).length + 1) (first :: others ++ (blank ++ following :: rest))
      (blank ++ following :: rest) := by
    apply Accepts.bind (Accepts.of_call (fun bound script => recordBody_block begins bound _ script)
      acceptsBlock)
    intro head _
    exact accepts_pushStatement _
  refine ⟨blank, behind.lines,
    (Accepts.of_call (fun bound script => ?_) accepts).mono (by simp)⟩
  exact statement_record kind nameKind (by simp) bound script

theorem accepted_recordAlone {token name : Token} (kind : token.kind = .recordWord)
    (nameKind : name.kind = .identifier) (terminates : Terminator closed ending)
    (noNewline : ∀ token ∈ ending, token.kind ≠ .newline) :
    StatementAccepted (.statement closed false) (token :: name :: ending) := by
  intro blank following rest behind
  have ends := behind.ends terminates rest
  have begins : ∃ first others, ending ++ (blank ++ following :: rest) = first :: others ∧
      (first.kind = .semicolon ∨ first.kind = .endOfSource) := by
    cases terminates with
    | @separator separator separates =>
        have other := noNewline separator List.mem_cons_self
        exact ⟨_, _, rfl, .inl (separates.resolve_left other)⟩
    | source =>
        obtain ⟨rfl, ended⟩ := behind.ended rfl
        exact ⟨_, _, rfl, .inr ended⟩
  have accepts : Accepts (fun bound => do
      let body ← recordBody bound
      pushStatement (.record name.lexeme body (token.span.merge name.span))) (fun _ => True) 2
      (ending ++ (blank ++ following :: rest)) (blank ++ following :: rest) := by
    have terminated : Accepts (fun _ => do
        terminator
        return (none : Option StatementRef)) (fun _ => True) 1
        (ending ++ (blank ++ following :: rest)) (blank ++ following :: rest) := by
      apply Accepts.bind (accepts_terminator ends)
      intro _ _
      exact accepts_return none
    obtain ⟨first, others, same, stops⟩ := begins
    rw [same] at terminated ⊢
    apply Accepts.bind
      (Accepts.of_call (fun bound script => recordBody_missing stops bound _ script) terminated)
    intro head _
    exact accepts_pushStatement _
  refine ⟨blank, behind.lines,
    (Accepts.of_call (fun bound script => ?_) accepts).mono (by simp; omega)⟩
  exact statement_record kind nameKind (by simp) bound script

/-!
## All rows
-/

theorem accepted_blank (empty : BlankLines row) :
    StatementAccepted (.sequence true false) row := by
  intro whole following rest after cost _ stays _ accepts
  exact (accepts.skipping empty stays).mono (Nat.le_add_right _ _)

theorem accepted_followed {before : Bool} {front : List Token}
    (accepted : StatementAccepted (.sequence true before) front)
    (begins : Token.BeginWith TokenKind.beginsStatement row)
    (acceptedRow : StatementAccepted (.statement closed dangles) row) (empty : BlankLines blank)
    (last : closed = false → blank = []) :
    StatementAccepted (.sequence closed dangles) (front ++ (row ++ blank)) := by
  intro whole following rest after cost behind stays enough accepts
  have behindRow : Behind closed dangles blank following :=
    ⟨empty, behind.stays, fun opened => ⟨last opened, (behind.ended opened).2⟩, behind.apart⟩
  have acceptsRow := accepts_followed begins acceptedRow behindRow stays enough accepts
  -- The front is read up to the first token of the row, which no conditional goes on with.
  obtain ⟨first, others, rfl, begins⟩ := begins
  have apart : first.kind ∉ [TokenKind.newline, .semicolon] ∧ first.kind.leadsOn = false := by
    revert begins
    generalize first.kind = kind
    cases kind <;> decide
  have behindFront : Behind true before [] first :=
    ⟨BlankLines.nil, fun same => apart.1 (by simp [same]), nofun, fun _ => apart.2⟩
  have acceptsFront := accepted whole first (others ++ (blank ++ following :: rest)) after
    (cost + 4 * (first :: others).length) behindFront apart.1 (by omega) acceptsRow
  simp only [List.append_assoc]
  exact acceptsFront.mono (by simp; omega)

end Parse

open Parse

/-- Where no conditional dangles, every row of a symbol is accepted. -/
theorem StatementSymbol.Derives.accepted {symbol : StatementSymbol} {row : List Token}
    (derived : symbol.Derives false row) : StatementAccepted symbol row := by
  induction derived with
  | simple simple terminates => exact accepted_simple simple terminates
  | branch kind condition rest ih => exact accepted_branch kind condition rest.begins_branches ih
  | whileLoop kind condition body ih =>
      exact accepted_whileLoop kind condition body.begins_body ih
  | forLoop kind itemKind inKind iterable body ih =>
      exact accepted_forLoop kind itemKind inKind iterable body.begins_body ih
  | define kind nameKind openKind names closeKind body ih =>
      exact accepted_define kind nameKind openKind names closeKind body.begins_body ih
  | record kind nameKind body ih => exact accepted_record kind nameKind body.begins_body ih
  | recordAlone kind nameKind terminates noNewline =>
      exact accepted_recordAlone kind nameKind terminates noNewline
  | blank empty => exact accepted_blank empty
  | followed _ row empty last ih rowIH => exact accepted_followed ih row.begins rowIH empty last
  | line kind simple terminates => exact accepted_line kind simple terminates
  | lines kind _ endKind terminates ih => exact accepted_lines kind ih endKind terminates
  | lastLine kind simple terminates => exact accepted_lastLine kind simple terminates
  | lastLines kind _ endKind terminates ih => exact accepted_lastLines kind ih endKind terminates
  | lineThen kind simple terminates empty rest ih =>
      exact accepted_lineThen kind simple terminates empty rest.begins_further ih
  | @linesThen _ within _ _ _ _ kind _ allowed rest innerIH restIH =>
      -- The only use of the restriction: the block does not end in a conditional left open.
      obtain rfl : within = false := by
        cases within with
        | false => rfl
        | true => exact absurd (allowed rfl) nofun
      exact accepted_linesThen kind innerIH rest.begins_further restIH
  | elsif kind condition rest ih => exact accepted_elsif kind condition rest.begins_branches ih
  | otherwise kind _ ih => exact accepted_otherwise kind ih

/-!
## Whole sources
-/

/-- A source that is derived with no block left open to an `elsif` or `else` that belongs
further out is accepted: it gives a script. -/
theorem Script.grammatical_source_is_accepted {closed dangles : Bool} {tokens : List Token}
    {last : Token} (derived : (StatementSymbol.sequence closed dangles).Derives false tokens)
    (ended : last.kind = .endOfSource) :
    ∃ script, (Cursor.reading (tokens ++ [last]) Script.empty).finish = .ok script ∧
      ∀ source, LexicalItem.scan source = (tokens ++ [last]).map .ok →
        Script.ofSource source = .ok script := by
  have closes : last.kind ∈ closers true := by
    rw [ended]
    decide
  have stays := not_separator_of_mem_closers closes
  have behind : Behind closed dangles [] last :=
    ⟨BlankLines.nil, fun same => stays (by simp [same]), fun _ => ⟨rfl, ended⟩,
      fun _ => by rw [ended]; rfl⟩
  obtain ⟨row, grown, _, reads⟩ := derived.accepted true last [] _ 2 behind stays
    (Nat.le_refl 2) (accepts_closer closes []) Script.empty
  have enough : 2 + 4 * tokens.length <
      (Cursor.reading (tokens ++ [last]) Script.empty).depthBound := by
    simp [Cursor.depthBound, Cursor.reading]
    omega
  have finished : (Cursor.reading (tokens ++ [last]) Script.empty).finish =
      .ok { grown.link row with first := row.head? } := by
    unfold Cursor.finish Cursor.parse
    rw [program_reading (reads _ enough) ended]
    rfl
  refine ⟨_, finished, fun source scanned => ?_⟩
  rw [Script.ofSource, Cursor.ofSource, scanned]
  exact finished

/-- The `else` of the inner conditional is on a line of its own, and the outer conditional
has one as well. -/
theorem Script.grammatical_source_is_accepted_with_inner_else :
    ∃ tokens last script, (StatementSymbol.sequence false false).Derives false tokens ∧
      last.kind = .endOfSource ∧
      LexicalItem.scan "if a\nif b: pass\n\nelse: pass\nelse\nend\nrecord r" =
        (tokens ++ [last]).map .ok ∧
      Script.ofSource "if a\nif b: pass\n\nelse: pass\nelse\nend\nrecord r" = .ok script := by
  have name {token : Token} (kind : token.kind = .identifier) :
      ExpressionSymbol.whole.Derives [token] := .applied (.target (.name kind))
  have innerElse : (StatementSymbol.further true false).Derives false
      (⟨.elseWord, "else", ⟨17, 4⟩⟩ :: ⟨.colon, ":", ⟨21, 1⟩⟩ ::
        ([⟨.passWord, "pass", ⟨23, 4⟩⟩] ++ [⟨.newline, "\n", ⟨27, 1⟩⟩])) :=
    .otherwise rfl (.line rfl (.pass rfl) (.separator (.inl rfl)))
  have inner : (StatementSymbol.statement true false).Derives false
      (⟨.ifWord, "if", ⟨5, 2⟩⟩ :: ([⟨.identifier, "b", ⟨8, 1⟩⟩] ++ ⟨.colon, ":", ⟨9, 1⟩⟩ ::
        ([⟨.passWord, "pass", ⟨11, 4⟩⟩] ++ ([⟨.newline, "\n", ⟨15, 1⟩⟩] ++
          ([⟨.newline, "\n", ⟨16, 1⟩⟩] ++ _))))) :=
    .branch rfl (name rfl) (.lineThen rfl (.pass rfl) (.separator (.inl rfl))
      (List.forall_mem_singleton.mpr rfl) innerElse)
  have outerElse : (StatementSymbol.further true false).Derives false
      (⟨.elseWord, "else", ⟨28, 4⟩⟩ :: ⟨.newline, "\n", ⟨32, 1⟩⟩ :: ([] ++
        ⟨.endWord, "end", ⟨33, 3⟩⟩ :: [⟨.newline, "\n", ⟨36, 1⟩⟩])) :=
    .otherwise rfl (.lines rfl (.blank BlankLines.nil) rfl (.separator (.inl rfl)))
  have outer : (StatementSymbol.statement true false).Derives false
      (⟨.ifWord, "if", ⟨0, 2⟩⟩ :: ([⟨.identifier, "a", ⟨3, 1⟩⟩] ++
        ⟨.newline, "\n", ⟨4, 1⟩⟩ :: (([] ++ (_ ++ [])) ++ _))) :=
    .branch rfl (name rfl) (.linesThen rfl
      (.followed (.blank BlankLines.nil) inner BlankLines.nil nofun) nofun outerElse)
  have record : (StatementSymbol.statement false false).Derives false
      (⟨.recordWord, "record", ⟨37, 6⟩⟩ :: ⟨.identifier, "r", ⟨44, 1⟩⟩ :: []) :=
    .recordAlone rfl rfl .source (List.forall_mem_nil _)
  have derived : (StatementSymbol.sequence false false).Derives false _ :=
    .followed (.followed (.blank BlankLines.nil) outer BlankLines.nil nofun) record
      BlankLines.nil fun _ => rfl
  have ended : (⟨.endOfSource, "", ⟨45, 0⟩⟩ : Token).kind = .endOfSource := rfl
  obtain ⟨script, _, accepted⟩ := Script.grammatical_source_is_accepted derived ended
  refine ⟨_, _, script, derived, ended, ?scanned, accepted _ ?scanned⟩
  decide +kernel

/-- The `else` on the last line can only belong to the first conditional, whose block would
otherwise need an `end`. But the conditional in the block takes it. -/
theorem Script.dangling_source_is_refused :
    ∃ tokens last, (StatementSymbol.sequence true false).Derives true tokens ∧
      last.kind = .endOfSource ∧
      LexicalItem.scan "if False\nif True: pass\nelse: print 1\n" =
        (tokens ++ [last]).map .ok ∧
      ∀ script, Script.ofSource "if False\nif True: pass\nelse: print 1\n" ≠ .ok script := by
  have literal {token : Token} (kind : token.kind.isLiteral = true) :
      ExpressionSymbol.whole.Derives [token] := .applied (.literal kind)
  have inner : (StatementSymbol.statement true true).Derives true
      (⟨.ifWord, "if", ⟨9, 2⟩⟩ :: ([⟨.trueWord, "True", ⟨12, 4⟩⟩] ++ ⟨.colon, ":", ⟨16, 1⟩⟩ ::
        ([⟨.passWord, "pass", ⟨18, 4⟩⟩] ++ [⟨.newline, "\n", ⟨22, 1⟩⟩]))) :=
    .branch rfl (literal rfl) (.lastLine rfl (.pass rfl) (.separator (.inl rfl)))
  have outerElse : (StatementSymbol.further true false).Derives true
      (⟨.elseWord, "else", ⟨23, 4⟩⟩ :: ⟨.colon, ":", ⟨27, 1⟩⟩ ::
        ((⟨.printWord, "print", ⟨29, 5⟩⟩ :: [⟨.number, "1", ⟨35, 1⟩⟩]) ++
          [⟨.newline, "\n", ⟨36, 1⟩⟩])) :=
    .otherwise rfl (.line rfl (.print rfl (.items (.last (literal rfl))))
      (.separator (.inl rfl)))
  have outer : (StatementSymbol.statement true false).Derives true
      (⟨.ifWord, "if", ⟨0, 2⟩⟩ :: ([⟨.falseWord, "False", ⟨3, 5⟩⟩] ++
        ⟨.newline, "\n", ⟨8, 1⟩⟩ :: (([] ++ (_ ++ [])) ++ _))) :=
    .branch rfl (literal rfl) (.linesThen rfl
      (.followed (.blank BlankLines.nil) inner BlankLines.nil nofun) (fun _ => rfl) outerElse)
  have refused :
      (Script.ofSource "if False\nif True: pass\nelse: print 1\n").toOption.isNone = true := by
    decide +kernel
  refine ⟨_, ⟨.endOfSource, "", ⟨37, 0⟩⟩,
    .followed (.blank BlankLines.nil) outer BlankLines.nil nofun, rfl, ?_, ?_⟩
  · decide +kernel
  · intro script accepted
    rw [accepted] at refused
    cases refused

end ScriptEngine
