import Mathlib.Logic.Function.Iterate
import ScriptEngine.Proofs.Grammar.Growth

/-!
# What a refused production leaves behind

A host may go on with a parser that has just refused an expression. The tokens that
were read are gone, and the expressions that were complete have been added to the
script. So the script has only grown, as it does when an expression is read.
-/

set_option autoImplicit false

namespace ScriptEngine

namespace Parse

variable {α β : Type}

theorem bind_refused {first : Parse α} {following : α → Parse β} {cursor left : Cursor}
    {failure : ParseError}
    (stopped : (first >>= following) cursor = .error (.refused failure left)) :
    first cursor = .error (.refused failure left) ∨
      ∃ value middle, first cursor = .ok (value, middle) ∧
        following value middle = .error (.refused failure left) := by
  simp only [bind, StateT.bind, Except.bind] at stopped
  split at stopped
  · next stop firstStopped =>
      cases stopped
      exact .inl firstStopped
  · next pair firstOk => exact .inr ⟨pair.1, pair.2, firstOk, stopped⟩

/-!
## Reading tokens
-/

/-- Where the production is refused, it has added nothing to the script. -/
def LeavesScript (production : Parse α) : Prop :=
  ∀ (cursor left : Cursor) (failure : ParseError),
    production cursor = .error (.refused failure left) → left.script = cursor.script

theorem leavesScript_pure (value : α) : LeavesScript (pure value) := by
  intro cursor left failure stopped
  cases stopped

theorem leavesScript_refuse (cause : ParseCause) (span : Span) :
    LeavesScript (refuse cause span : Parse α) := by
  intro cursor left failure stopped
  cases stopped
  rfl

theorem LeavesScript.bind {first : Parse α} {following : α → Parse β}
    (firstKeeps : KeepsScript first) (firstLeaves : LeavesScript first)
    (followingLeaves : ∀ value, LeavesScript (following value)) :
    LeavesScript (first >>= following) := by
  intro cursor left failure stopped
  rcases bind_refused stopped with stopped | ⟨value, middle, firstOk, stopped⟩
  · exact firstLeaves _ _ _ stopped
  · rw [followingLeaves value _ _ _ stopped, firstKeeps _ _ _ firstOk]

theorem leavesScript_peek : LeavesScript peek := by
  intro cursor left failure stopped
  unfold peek at stopped
  split at stopped <;> cases stopped
  rfl

theorem leavesScript_skip : LeavesScript skip := by
  intro cursor left failure stopped
  unfold skip at stopped
  split at stopped <;> cases stopped

theorem leavesScript_next : LeavesScript next := by
  intro cursor left failure stopped
  unfold next at stopped
  split at stopped
  · cases stopped
    rfl
  · refine LeavesScript.bind keepsScript_peek leavesScript_peek (fun _ => ?_) _ _ _ stopped
    exact .bind keepsScript_skip leavesScript_skip fun _ => leavesScript_pure _

theorem leavesScript_expect (kind : TokenKind) : LeavesScript (expect kind) := by
  refine .bind keepsScript_next leavesScript_next fun token => ?_
  split
  · exact leavesScript_pure _
  · exact leavesScript_refuse _ _

theorem leavesScript_accept? (kind : TokenKind) : LeavesScript (accept? kind) := by
  refine .bind keepsScript_peek leavesScript_peek fun token => ?_
  split
  · exact .bind keepsScript_skip leavesScript_skip fun _ => leavesScript_pure _
  · exact leavesScript_pure _

theorem leavesScript_accept (kind : TokenKind) : LeavesScript (accept kind) := by
  unfold accept
  rw [map_eq_pure_bind]
  exact .bind (keepsScript_accept? kind) (leavesScript_accept? kind) fun _ => leavesScript_pure _

theorem leavesScript_name : LeavesScript name :=
  .bind (keepsScript_expect _) (leavesScript_expect _) fun _ => leavesScript_pure _

theorem pushExpression_refused {node : Expression} {cursor left : Cursor} {failure : ParseError}
    (stopped : pushExpression node cursor = .error (.refused failure left)) : False := by
  cases stopped

/-!
## Expressions
-/

/-- Where the production is refused, the script has all that it had and perhaps more
expressions, and every node still spells a tree. -/
def Leaves (production : Parse α) (before : Script → Prop) : Prop :=
  ∀ (cursor left : Cursor) (failure : ParseError),
    production cursor = .error (.refused failure left) → before cursor.script →
      cursor.script.GrowsTo left.script

structure LeavesExpressions (bound : Nat) : Prop where
  operand : Leaves (operand bound) fun _ => True
  unary : ∀ operator start, Leaves (unary bound operator start) fun _ => True
  listUntil : ∀ closing, Leaves (listUntil bound closing) fun _ => True
  suffixOf : ∀ left : ParsedExpression, Leaves (suffixOf bound left) left.Rooted
  expressionFrom : ∀ power, Leaves (expressionFrom bound power) fun _ => True
  continued : ∀ power (left : ParsedExpression), Leaves (continued bound power left) left.Rooted

private theorem literal_refused {value : Value} {span : Span} {cursor left : Cursor}
    {failure : ParseError} (stopped : literal value span cursor = .error (.refused failure left)) :
    False := by
  rcases bind_refused stopped with stopped | ⟨node, middle, _, stopped⟩
  · exact pushExpression_refused stopped
  · cases stopped

private theorem leaves_operand {bound : Nat} (ih : LeavesExpressions bound) :
    Leaves (operand (bound + 1)) fun _ => True := by
  intro cursor left failure stopped _
  simp only [operand] at stopped
  rcases bind_refused stopped with stopped | ⟨token, first, tokenRead, stopped⟩
  · exact .of_eq (leavesScript_next _ _ _ stopped)
  have read := Script.GrowsTo.of_eq (keepsScript_next _ _ _ tokenRead)
  refine read.trans ?_
  generalize token.kind = kind at stopped
  split at stopped
  · exact .of_eq (leavesScript_refuse _ _ _ _ _ stopped)
  iterate 5
    exact (literal_refused stopped).elim
  · rcases bind_refused stopped with stopped | ⟨node, middle, _, stopped⟩
    · exact (pushExpression_refused stopped).elim
    · cases stopped
  · exact ih.unary _ _ _ _ _ stopped trivial
  · exact ih.unary _ _ _ _ _ stopped trivial
  · rcases bind_refused stopped with stopped | ⟨inner, middle, innerParsed, stopped⟩
    · exact ih.expressionFrom _ _ _ _ stopped trivial
    obtain ⟨grown, _⟩ := (rootsExpressions bound).expressionFrom _ _ _ _ innerParsed trivial
    refine grown.trans ?_
    rcases bind_refused stopped with stopped | ⟨close, last, _, stopped⟩
    · exact .of_eq (leavesScript_expect _ _ _ _ stopped)
    · cases stopped
  · rcases bind_refused stopped with stopped | ⟨⟨elements, close⟩, middle, _, stopped⟩
    · exact ih.listUntil _ _ _ _ stopped trivial
    rcases bind_refused stopped with stopped | ⟨node, last, _, stopped⟩
    · exact (pushExpression_refused stopped).elim
    · cases stopped
  · exact .of_eq (leavesScript_refuse _ _ _ _ _ stopped)

private theorem leaves_unary {bound : Nat} (ih : LeavesExpressions bound)
    (operator : UnaryOperator) (start : Span) :
    Leaves (unary (bound + 1) operator start) fun _ => True := by
  intro cursor left failure stopped _
  simp only [unary] at stopped
  rcases bind_refused stopped with stopped | ⟨inner, middle, _, stopped⟩
  · exact ih.expressionFrom _ _ _ _ stopped trivial
  rcases bind_refused stopped with stopped | ⟨node, last, _, stopped⟩
  · exact (pushExpression_refused stopped).elim
  · cases stopped

private theorem leaves_listUntil {bound : Nat} (ih : LeavesExpressions bound)
    (closing : TokenKind) : Leaves (listUntil (bound + 1) closing) fun _ => True := by
  intro cursor left failure stopped _
  simp only [listUntil] at stopped
  rcases bind_refused stopped with stopped | ⟨closed, first, closedRead, stopped⟩
  · exact .of_eq (leavesScript_accept? _ _ _ _ stopped)
  refine (Script.GrowsTo.of_eq (keepsScript_accept? _ _ _ _ closedRead)).trans ?_
  split at stopped
  · cases stopped
  rcases bind_refused stopped with stopped | ⟨item, second, itemParsed, stopped⟩
  · exact ih.expressionFrom _ _ _ _ stopped trivial
  obtain ⟨grown, _⟩ := (rootsExpressions bound).expressionFrom _ _ _ _ itemParsed trivial
  refine grown.trans ?_
  rcases bind_refused stopped with stopped | ⟨more, third, moreRead, stopped⟩
  · exact .of_eq (leavesScript_accept _ _ _ _ stopped)
  refine (Script.GrowsTo.of_eq (keepsScript_accept _ _ _ _ moreRead)).trans ?_
  split at stopped
  · rcases bind_refused stopped with stopped | ⟨rest, fourth, _, stopped⟩
    · exact ih.listUntil _ _ _ _ stopped trivial
    · cases stopped
  · rcases bind_refused stopped with stopped | ⟨close, fourth, _, stopped⟩
    · exact .of_eq (leavesScript_expect _ _ _ _ stopped)
    · cases stopped

private theorem leaves_suffixOf {bound : Nat} (ih : LeavesExpressions bound)
    (object : ParsedExpression) : Leaves (suffixOf (bound + 1) object) object.Rooted := by
  intro cursor left failure stopped _
  simp only [suffixOf] at stopped
  rcases bind_refused stopped with stopped | ⟨token, first, tokenRead, stopped⟩
  · exact .of_eq (leavesScript_next _ _ _ stopped)
  refine (Script.GrowsTo.of_eq (keepsScript_next _ _ _ tokenRead)).trans ?_
  generalize token.kind = kind at stopped
  split at stopped
  · rcases bind_refused stopped with stopped | ⟨⟨arguments, close⟩, second, _, stopped⟩
    · exact ih.listUntil _ _ _ _ stopped trivial
    rcases bind_refused stopped with stopped | ⟨node, third, _, stopped⟩
    · exact (pushExpression_refused stopped).elim
    · cases stopped
  · rcases bind_refused stopped with stopped | ⟨index, second, indexParsed, stopped⟩
    · exact ih.expressionFrom _ _ _ _ stopped trivial
    obtain ⟨grown, _⟩ := (rootsExpressions bound).expressionFrom _ _ _ _ indexParsed trivial
    refine grown.trans ?_
    rcases bind_refused stopped with stopped | ⟨close, third, _, stopped⟩
    · exact .of_eq (leavesScript_expect _ _ _ _ stopped)
    rcases bind_refused stopped with stopped | ⟨node, fourth, _, stopped⟩
    · exact (pushExpression_refused stopped).elim
    · cases stopped
  · rcases bind_refused stopped with stopped | ⟨⟨memberName, memberSpan⟩, second, _, stopped⟩
    · exact .of_eq (leavesScript_name _ _ _ stopped)
    rcases bind_refused stopped with stopped | ⟨member, third, _, stopped⟩
    · exact (pushExpression_refused stopped).elim
    rcases bind_refused stopped with stopped | ⟨node, fourth, _, stopped⟩
    · exact (pushExpression_refused stopped).elim
    · cases stopped

private theorem leaves_continued {bound : Nat} (ih : LeavesExpressions bound) (power : Nat)
    (first : ParsedExpression) : Leaves (continued (bound + 1) power first) first.Rooted := by
  intro cursor left failure stopped firstRooted
  simp only [continued] at stopped
  rcases bind_refused stopped with stopped | ⟨token, peeked, tokenRead, stopped⟩
  · exact .of_eq (leavesScript_peek _ _ _ stopped)
  have read := Script.GrowsTo.of_eq (keepsScript_peek _ _ _ tokenRead)
  refine read.trans ?_
  generalize token.kind = kind at stopped
  split at stopped
  iterate 3
    split at stopped
    · cases stopped
    · rcases bind_refused stopped with stopped | ⟨extended, second, extendedParsed, stopped⟩
      · exact ih.suffixOf first _ _ _ stopped (firstRooted.grow read)
      obtain ⟨grown, extendedRooted⟩ := (rootsExpressions bound).suffixOf first _ _ _
        extendedParsed (firstRooted.grow read)
      exact grown.trans (ih.continued _ _ _ _ _ stopped extendedRooted)
  generalize MiddleOperator.ofKind? _ = operator? at stopped
  cases operator? with
  | none => cases stopped
  | some operator =>
      dsimp only at stopped
      split at stopped
      · cases stopped
      rcases bind_refused stopped with stopped | ⟨_, second, skipped, stopped⟩
      · exact .of_eq (leavesScript_skip _ _ _ stopped)
      have reread := Script.GrowsTo.of_eq (keepsScript_skip _ _ _ skipped)
      refine reread.trans ?_
      rcases bind_refused stopped with stopped | ⟨right, third, rightParsed, stopped⟩
      · exact ih.expressionFrom _ _ _ _ stopped trivial
      obtain ⟨grown, rightRooted⟩ :=
        (rootsExpressions bound).expressionFrom _ _ _ _ rightParsed trivial
      refine grown.trans ?_
      rcases bind_refused stopped with stopped | ⟨node, fourth, pushed, stopped⟩
      · exact (pushExpression_refused stopped).elim
      have firstPresent := (((firstRooted.grow read).grow reread).grow grown).node
      obtain ⟨added, nodePresent, _⟩ := pushExpression_ok pushed
        (MiddleOperator.rooted_node operator _ firstPresent rightRooted.node)
      exact added.trans (ih.continued _ _ _ _ _ stopped ⟨nodePresent, by simp⟩)

theorem leavesExpressions (bound : Nat) : LeavesExpressions bound := by
  induction bound with
  | zero =>
      constructor
      all_goals
        intros
        intro cursor left failure stopped
        cases stopped
  | succ bound ih =>
      refine ⟨leaves_operand ih, leaves_unary ih, leaves_listUntil ih, leaves_suffixOf ih, ?_,
        leaves_continued ih⟩
      intro power cursor left failure stopped _
      simp only [expressionFrom] at stopped
      rcases bind_refused stopped with stopped | ⟨first, middle, firstParsed, stopped⟩
      · exact ih.operand _ _ _ stopped trivial
      obtain ⟨grown, firstRooted⟩ := (rootsExpressions bound).operand _ _ _ firstParsed trivial
      exact grown.trans (ih.continued _ _ _ _ _ stopped firstRooted)

end Parse

/-!
## Any number of attempts
-/

namespace Cursor

theorem afterExpression_grows (cursor : Cursor) :
    cursor.script.GrowsTo cursor.afterExpression.script := by
  unfold afterExpression
  split
  · next parsed after read => exact (Parse.roots_expression _ _ _ _ read trivial).1
  · next failure left stopped =>
      exact (Parse.leavesExpressions _).expressionFrom _ _ _ _ stopped trivial
  · exact .of_eq rfl

theorem planted_iterate (source : String) (attempts : Nat) :
    (afterExpression^[attempts] (ofSource source)).script.Planted := by
  induction attempts with
  | zero => exact Script.planted_empty
  | succ attempts ih =>
      rw [Function.iterate_succ_apply']
      exact (afterExpression_grows _).planted ih

theorem unused_iterate (source : String) (attempts : Nat) :
    (afterExpression^[attempts] (ofSource source)).script.statements.size = 0 := by
  induction attempts with
  | zero => rfl
  | succ attempts ih =>
      rw [Function.iterate_succ_apply', (afterExpression_grows _).statements]
      exact ih

theorem finish_whole_iterate {source : String} {attempts : Nat} {script : Script}
    (finished : (afterExpression^[attempts] (ofSource source)).finish = .ok script) :
    script.Whole := by
  obtain ⟨after, parsed⟩ := finish_ok finished
  exact Parse.program_whole parsed (planted_iterate source attempts)
    (unused_iterate source attempts)

end Cursor

end ScriptEngine
