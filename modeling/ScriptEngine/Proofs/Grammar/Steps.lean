import Mathlib
import ScriptEngine.Proofs.Grammar.Growth

/-!
# The steps of a parser

A production for statements does four things to a cursor, over and over: it drops an item that
others follow, it reads an expression, it adds a statement and it links statements. What each
of these steps keeps is kept by reading a whole script (`Parse.program_proceeds`).
-/

set_option autoImplicit false

namespace ScriptEngine

/-- One thing that a production for statements does to a cursor. -/
inductive Cursor.Step : Cursor → Cursor → Prop where
  | drop {item next : LexicalItem} {rest : List LexicalItem} {script : Script} :
      Step ⟨item :: next :: rest, script⟩ ⟨next :: rest, script⟩
  | expression {bound : Nat} {cursor after : Cursor} {result : ParsedExpression}
      (parsed : Parse.expression bound cursor = .ok (result, after)) : Step cursor after
  | statement {cursor : Cursor} (node : Statement) :
      Step cursor { cursor with script := (cursor.script.pushStatement node).2 }
  | link {cursor : Cursor} (sequence : List StatementRef) :
      Step cursor { cursor with script := cursor.script.link sequence }

namespace Parse

/-- What the production does to a cursor, it does in steps. -/
def Proceeds {α : Type} (production : Parse α) : Prop :=
  ∀ cursor after result, production cursor = .ok (result, after) →
    Relation.ReflTransGen Cursor.Step cursor after

variable {α β : Type}

theorem Proceeds.bind {first : Parse α} {following : α → Parse β} (proceeds : Proceeds first)
    (follows : ∀ value, Proceeds (following value)) : Proceeds (first >>= following) := by
  intro cursor after result parsed
  obtain ⟨value, middle, firstOk, followingOk⟩ := bind_ok parsed
  exact (proceeds _ _ _ firstOk).trans (follows value _ _ _ followingOk)

theorem proceeds_pure (value : α) : Proceeds (pure value) := by
  intro cursor after result parsed
  cases parsed
  exact .refl

theorem proceeds_refuse (cause : ParseCause) (span : Span) :
    Proceeds (refuse cause span : Parse α) := by
  intro cursor after result parsed
  cases parsed

theorem proceeds_exhausted : Proceeds (exhausted : Parse α) := by
  intro cursor after result parsed
  cases parsed

/-!
## Tokens
-/

theorem proceeds_peek : Proceeds peek := by
  intro cursor after token parsed
  unfold peek at parsed
  split at parsed
  · cases parsed
    exact .refl
  · cases parsed
    exact .refl
  · cases parsed

theorem proceeds_skip : Proceeds skip := by
  intro cursor after _ parsed
  obtain ⟨items, script⟩ := cursor
  unfold skip at parsed
  split at parsed
  · next item following rest same =>
      obtain rfl : items = item :: following :: rest := same
      cases parsed
      exact .single .drop
  · cases parsed
    exact .refl

theorem proceeds_next : Proceeds next := by
  intro cursor after token parsed
  unfold next at parsed
  split at parsed
  · cases parsed
  · exact (proceeds_peek.bind fun _ => proceeds_skip.bind fun _ => proceeds_pure _)
      cursor after token parsed

theorem proceeds_expect (kind : TokenKind) : Proceeds (expect kind) := by
  refine proceeds_next.bind fun token => ?_
  split
  · exact proceeds_pure _
  · exact proceeds_refuse _ _

theorem proceeds_accept? (kind : TokenKind) : Proceeds (accept? kind) := by
  refine proceeds_peek.bind fun token => ?_
  split
  · exact proceeds_skip.bind fun _ => proceeds_pure _
  · exact proceeds_pure _

theorem proceeds_accept (kind : TokenKind) : Proceeds (accept kind) := by
  unfold accept
  rw [map_eq_pure_bind]
  exact (proceeds_accept? kind).bind fun _ => proceeds_pure _

theorem proceeds_skipKinds (kinds : List TokenKind) : Proceeds (skipKinds kinds) := by
  intro cursor after _ parsed
  obtain ⟨items, script⟩ := cursor
  cases parsed
  change Relation.ReflTransGen Cursor.Step ⟨items, script⟩ ⟨dropKinds kinds items, script⟩
  fun_induction dropKinds kinds items with
  | case1 token following rest taken ih => exact .head .drop ih
  | case2 | case3 => exact .refl

theorem proceeds_name : Proceeds name :=
  (proceeds_expect _).bind fun _ => proceeds_pure _

theorem proceeds_atTerminator : Proceeds atTerminator :=
  proceeds_peek.bind fun _ => proceeds_pure _

theorem proceeds_terminator : Proceeds terminator := by
  refine proceeds_peek.bind fun token => ?_
  split
  · exact proceeds_skip
  · exact proceeds_skip
  · exact proceeds_pure _
  · exact proceeds_refuse _ _

theorem proceeds_closeCompound (severalLines : Bool) : Proceeds (closeCompound severalLines) := by
  unfold closeCompound
  split
  · exact (proceeds_expect _).bind fun _ => proceeds_terminator
  · exact proceeds_pure _

theorem proceeds_parameters (bound : Nat) : Proceeds (parameters bound) := by
  induction bound with
  | zero => exact proceeds_exhausted
  | succ bound ih =>
      refine (proceeds_accept _).bind fun closed => ?_
      split
      · exact proceeds_pure _
      · refine proceeds_name.bind fun parameter => (proceeds_accept _).bind fun more => ?_
        split
        · exact ih.bind fun _ => proceeds_pure _
        · exact (proceeds_expect _).bind fun _ => proceeds_pure _

/-!
## Statements
-/

theorem proceeds_expression (bound : Nat) : Proceeds (expression bound) :=
  fun _ _ _ parsed => .single (.expression parsed)

theorem proceeds_pushStatement (node : Statement) : Proceeds (pushStatement node) := by
  intro cursor after this parsed
  cases parsed
  exact .single (.statement node)

theorem proceeds_link (sequence : List StatementRef) : Proceeds (link sequence) := by
  intro cursor after head parsed
  cases parsed
  exact .single (.link sequence)

private theorem proceeds_printedRest (bound : Nat) : Proceeds (printedRest bound) := by
  induction bound with
  | zero => exact proceeds_exhausted
  | succ bound ih =>
      refine (proceeds_accept _).bind fun more => ?_
      split
      · exact (proceeds_expression bound).bind fun _ => ih.bind fun _ => proceeds_pure _
      · exact proceeds_pure _

private theorem proceeds_assignmentOrExpression (bound : Nat) :
    Proceeds (assignmentOrExpression bound) := by
  refine (proceeds_expression bound).bind fun left => proceeds_peek.bind fun token => ?_
  split
  · exact proceeds_pushStatement _
  · refine proceeds_skip.bind fun _ => ?_
    split
    · exact proceeds_refuse _ _
    · exact (proceeds_expression bound).bind fun _ => proceeds_pushStatement _

private theorem proceeds_simpleStatement (bound : Nat) : Proceeds (simpleStatement bound) := by
  refine proceeds_peek.bind fun token => ?_
  split
  · refine proceeds_skip.bind fun _ => proceeds_atTerminator.bind fun ended => ?_
    split
    · exact proceeds_pushStatement _
    · exact (proceeds_expression bound).bind fun _ =>
        (proceeds_printedRest bound).bind fun _ => proceeds_pushStatement _
  · exact proceeds_skip.bind fun _ => proceeds_pushStatement _
  · exact proceeds_skip.bind fun _ => proceeds_pushStatement _
  · refine proceeds_skip.bind fun _ => (proceeds_accept? _).bind fun number? => ?_
    split
    · exact proceeds_pushStatement _
    · split
      · exact proceeds_refuse _ _
      · exact proceeds_pushStatement _
  · refine proceeds_skip.bind fun _ => proceeds_atTerminator.bind fun ended => ?_
    split
    · exact proceeds_pushStatement _
    · exact (proceeds_expression bound).bind fun _ => proceeds_pushStatement _
  · exact proceeds_skip.bind fun _ => proceeds_name.bind fun _ => proceeds_pushStatement _
  · exact proceeds_assignmentOrExpression bound

/-- The productions for statements proceed in steps. -/
structure ProceedsStatements (bound : Nat) : Prop where
  sequence : ∀ ends, Proceeds (sequence bound ends)
  statement : Proceeds (statement bound)
  block : Proceeds (block bound)
  furtherBranches : ∀ severalLines, Proceeds (furtherBranches bound severalLines)
  recordBody : Proceeds (recordBody bound)

private theorem proceeds_sequence {bound : Nat} (ih : ProceedsStatements bound)
    (ends : List TokenKind) : Proceeds (sequence (bound + 1) ends) := by
  refine (proceeds_skipKinds _).bind fun _ => proceeds_peek.bind fun token => ?_
  split
  · exact proceeds_pure _
  · split
    · exact proceeds_refuse _ _
    · exact ih.statement.bind fun _ => (ih.sequence ends).bind fun _ => proceeds_pure _

private theorem proceeds_statement {bound : Nat} (ih : ProceedsStatements bound) :
    Proceeds (statement (bound + 1)) := by
  refine proceeds_peek.bind fun token => ?_
  split
  · exact proceeds_skip.bind fun _ => (proceeds_expression bound).bind fun _ =>
      ih.block.bind fun _ => (ih.furtherBranches _).bind fun _ => proceeds_pushStatement _
  · exact proceeds_skip.bind fun _ => (proceeds_expression bound).bind fun _ =>
      ih.block.bind fun _ => (proceeds_closeCompound _).bind fun _ => proceeds_pushStatement _
  · exact proceeds_skip.bind fun _ => proceeds_name.bind fun _ =>
      (proceeds_expect _).bind fun _ => (proceeds_expression bound).bind fun _ =>
        ih.block.bind fun _ => (proceeds_closeCompound _).bind fun _ => proceeds_pushStatement _
  · exact proceeds_skip.bind fun _ => proceeds_name.bind fun _ =>
      (proceeds_expect _).bind fun _ => (proceeds_parameters bound).bind fun _ =>
        ih.block.bind fun _ => (proceeds_closeCompound _).bind fun _ => proceeds_pushStatement _
  · exact proceeds_skip.bind fun _ => proceeds_name.bind fun _ =>
      ih.recordBody.bind fun _ => proceeds_pushStatement _
  · exact (proceeds_simpleStatement bound).bind fun _ =>
      proceeds_terminator.bind fun _ => proceeds_pure _

private theorem proceeds_block {bound : Nat} (ih : ProceedsStatements bound) :
    Proceeds (block (bound + 1)) := by
  refine (proceeds_accept _).bind fun colon => ?_
  split
  · exact (proceeds_simpleStatement bound).bind fun _ =>
      proceeds_terminator.bind fun _ => proceeds_pure _
  · refine proceeds_next.bind fun token => ?_
    split
    · exact (ih.sequence _).bind fun _ => (proceeds_link _).bind fun _ => proceeds_pure _
    · exact proceeds_refuse _ _
    · exact proceeds_refuse _ _

private theorem proceeds_furtherBranches {bound : Nat} (ih : ProceedsStatements bound)
    (severalLines : Bool) : Proceeds (furtherBranches (bound + 1) severalLines) := by
  refine (proceeds_skipKinds _).bind fun _ => (proceeds_accept _).bind fun tested => ?_
  split
  · exact (proceeds_expression bound).bind fun _ => ih.block.bind fun _ =>
      (ih.furtherBranches _).bind fun _ => proceeds_pure _
  · refine (proceeds_accept _).bind fun otherwise => ?_
    split
    · exact ih.block.bind fun _ => (proceeds_closeCompound _).bind fun _ => proceeds_pure _
    · exact (proceeds_closeCompound _).bind fun _ => proceeds_pure _

private theorem proceeds_recordBody {bound : Nat} (ih : ProceedsStatements bound) :
    Proceeds (recordBody (bound + 1)) := by
  refine proceeds_peek.bind fun token => ?_
  split
  · exact proceeds_terminator.bind fun _ => proceeds_pure _
  · exact proceeds_terminator.bind fun _ => proceeds_pure _
  · exact ih.block.bind fun _ => (proceeds_closeCompound _).bind fun _ => proceeds_pure _

theorem proceedsStatements (bound : Nat) : ProceedsStatements bound := by
  induction bound with
  | zero => constructor <;> intros <;> exact proceeds_exhausted
  | succ bound ih =>
      exact ⟨proceeds_sequence ih, proceeds_statement ih, proceeds_block ih,
        proceeds_furtherBranches ih, proceeds_recordBody ih⟩

/-- The script that is given away is the one that the steps have led to, but for where a run
of it begins. -/
theorem program_proceeds {bound : Nat} {cursor after : Cursor} {script : Script}
    (parsed : program bound cursor = .ok (script, after)) :
    ∃ last first, Relation.ReflTransGen Cursor.Step cursor last ∧
      script = { last.script with first } := by
  simp only [program] at parsed
  obtain ⟨row, first, rowParsed, parsed⟩ := bind_ok parsed
  obtain ⟨token, second, tokenRead, parsed⟩ := bind_ok parsed
  obtain ⟨head, third, linked, parsed⟩ := bind_ok parsed
  have read := (proceedsStatements bound).sequence _ _ _ _ rowParsed
  have ended := proceeds_expect _ _ _ _ tokenRead
  have joined := proceeds_link _ _ _ _ linked
  cases parsed
  exact ⟨third, head, (read.trans ended).trans joined, rfl⟩

end Parse

end ScriptEngine
