import Mathlib
import ScriptEngine.Proofs.Grammar.Grouped
import ScriptEngine.Proofs.Grammar.Layout

/-!
# The source of a node is read back

A node covers a stretch of its source from the beginning of one token to the end of another
one, and all nodes below it lie there. In parentheses this stretch is an expression, and it is
read as the tree of the node (`Script.ReadFrom.stands_for_text`): the brackets in it are
balanced, so the lexer finds the same tokens there, and they are grouped as before.
-/

set_option autoImplicit false

namespace ScriptEngine

/-!
## Places
-/

mutual

/-- The places of the nodes of a tree, beginning with its own. The name of a member is a node
as well. -/
def ExpressionTree.spans : ExpressionTree → List Span
  | .constant _ span => [span]
  | .name _ span => [span]
  | .unary _ operand span => span :: operand.spans
  | .binary _ left right span => span :: (left.spans ++ right.spans)
  | .shortCircuit _ left right span => span :: (left.spans ++ right.spans)
  | .member object _ nameSpan span => span :: (object.spans ++ [nameSpan])
  | .element object index span => span :: (object.spans ++ index.spans)
  | .array elements span => span :: ExpressionTree.allSpans elements
  | .call callee arguments span => span :: (callee.spans ++ ExpressionTree.allSpans arguments)

def ExpressionTree.allSpans : List ExpressionTree → List Span
  | [] => []
  | tree :: trees => tree.spans ++ ExpressionTree.allSpans trees

end

theorem MiddleOperator.spans_tree (operator : MiddleOperator) (left right : ExpressionTree)
    (span : Span) :
    (operator.tree left right span).spans = span :: (left.spans ++ right.spans) := by
  cases operator <;> rfl

theorem ExpressionTree.At.span_eq {script : Script} {tree : ExpressionTree}
    {reference : ExpressionRef} {expression : Expression} (spelled : tree.At script reference)
    (found : script.expression? reference = some expression) : expression.span = tree.span := by
  cases tree with
  | constant | name =>
      cases found.symm.trans spelled
      rfl
  | unary | array =>
      obtain ⟨_, same, _⟩ := spelled
      cases found.symm.trans same
      rfl
  | binary | shortCircuit | member | element | call =>
      obtain ⟨_, _, same, _⟩ := spelled
      cases found.symm.trans same
      rfl

/-- All bytes of the second span are bytes of the first one. -/
def Span.Contains (outer inner : Span) : Prop :=
  outer.start.toNat ≤ inner.start.toNat ∧
    inner.start.toNat + inner.length.toNat ≤ outer.start.toNat + outer.length.toNat

/-- The span lies between the positions. -/
def Span.Inside (start stop : Nat) (span : Span) : Prop :=
  ∃ first last, span = .between first last ∧ start ≤ first ∧ first ≤ last ∧ last ≤ stop

theorem Span.Inside.mono {start stop first last : Nat} {span : Span}
    (inside : span.Inside start stop) (before : first ≤ start) (behind : stop ≤ last) :
    span.Inside first last := by
  obtain ⟨lowest, highest, rfl, lower, ordered, upper⟩ := inside
  exact ⟨lowest, highest, rfl, by omega, ordered, by omega⟩

theorem Span.Inside.contains {start stop : Nat} {span : Span} (inside : span.Inside start stop)
    (short : stop < 2 ^ 32) : (Span.between start stop).Contains span := by
  obtain ⟨first, last, rfl, lower, ordered, upper⟩ := inside
  have outer := Span.between_toNat (by omega : start ≤ stop) short
  have inner := Span.between_toNat ordered (by omega)
  rw [Span.Contains, outer.1, outer.2, inner.1, inner.2]
  omega

theorem Span.merge_between {start middle next stop : Nat} (first : start ≤ middle)
    (apart : middle ≤ next) (second : next ≤ stop) (short : stop < 2 ^ 32) :
    (Span.between start middle).merge (Span.between next stop) = Span.between start stop := by
  have left := Span.between_toNat first (by omega)
  have right := Span.between_toNat second short
  have whole := Span.between_toNat (by omega : start ≤ stop) short
  have leftStop : (Span.between start middle).stop.toNat = _ := UInt32.toNat_add _ _
  have rightStop : (Span.between next stop).stop.toNat = _ := UInt32.toNat_add _ _
  have begins := Span.start_merge (Span.between start middle) (Span.between next stop)
  have ends := Span.length_merge (Span.between start middle) (Span.between next stop)
  generalize (Span.between start middle).merge (Span.between next stop) = merged at begins ends
  have sameStart : merged.start = (Span.between start stop).start := UInt32.toNat_inj.mp (by omega)
  have sameLength : merged.length = (Span.between start stop).length :=
    UInt32.toNat_inj.mp (by omega)
  cases merged
  cases sameStart
  cases sameLength
  rfl

/-- The tokens stand one behind the other, the first one from `start` on and the last one up
to `stop`. -/
inductive Token.Reach : Nat → Nat → List Token → Prop where
  | last {token : Token} {start stop : Nat} (ordered : start ≤ stop)
      (span : token.span = .between start stop) : Token.Reach start stop [token]
  | more {token : Token} {row : List Token} {start middle next stop : Nat}
      (ordered : start ≤ middle) (span : token.span = .between start middle)
      (apart : middle ≤ next) (reach : Token.Reach next stop row) :
      Token.Reach start stop (token :: row)

namespace Token.Reach

variable {start stop : Nat} {token : Token} {row front back : List Token}

theorem le (reach : Token.Reach start stop row) : start ≤ stop := by
  induction reach with
  | last ordered => exact ordered
  | more ordered _ apart _ ih => omega

theorem cons (reach : Token.Reach start stop (token :: row)) (more : row ≠ []) :
    ∃ middle next, token.span = .between start middle ∧ start ≤ middle ∧ middle ≤ next ∧
      Token.Reach next stop row := by
  cases reach with
  | last => exact absurd rfl more
  | more ordered span apart reach => exact ⟨_, _, span, ordered, apart, reach⟩

theorem single (reach : Token.Reach start stop [token]) : token.span = .between start stop := by
  cases reach with
  | last _ span => exact span
  | more _ _ _ reach => cases reach

theorem append (reach : Token.Reach start stop (front ++ back)) (some : front ≠ [])
    (more : back ≠ []) :
    ∃ middle next, Token.Reach start middle front ∧ middle ≤ next ∧
      Token.Reach next stop back := by
  induction front generalizing start with
  | nil => exact absurd rfl some
  | cons token front ih =>
      obtain ⟨middle, next, span, ordered, apart, reach⟩ := cons reach (by simp [more])
      cases front with
      | nil => exact ⟨middle, next, .last ordered span, apart, reach⟩
      | cons second front =>
          obtain ⟨later, behind, early, between, late⟩ := ih reach (by simp)
          exact ⟨later, behind, .more ordered span apart early, between, late⟩

/-- What stands between the first token and others behind it. -/
theorem inner (reach : Token.Reach start stop (token :: (row ++ back))) (some : row ≠ [])
    (more : back ≠ []) :
    ∃ first middle next, start ≤ first ∧ Token.Reach first middle row ∧ middle ≤ next ∧
      Token.Reach next stop back := by
  obtain ⟨_, first, _, ordered, apart, reach⟩ := reach.cons (by simp [some])
  obtain ⟨middle, next, early, between, late⟩ := reach.append some more
  exact ⟨first, middle, next, by omega, early, between, late⟩

/-- The last token behind others. -/
theorem concat (reach : Token.Reach start stop (front ++ [token])) (some : front ≠ []) :
    ∃ middle next, Token.Reach start middle front ∧ middle ≤ next ∧ next ≤ stop ∧
      token.span = .between next stop := by
  obtain ⟨middle, next, early, between, late⟩ := reach.append some (List.cons_ne_nil _ _)
  exact ⟨middle, next, early, between, late.le, late.single⟩

/-- What has been read up to some token, and what has been read behind it. -/
theorem merge_ends {closing : Token} (reach : Token.Reach start stop (token :: (row ++ [closing])))
    (short : stop < 2 ^ 32) : token.span.merge closing.span = .between start stop := by
  obtain ⟨middle, next, span, ordered, apart, reach⟩ := reach.cons (by simp)
  rw [span]
  cases row with
  | nil =>
      rw [reach.single]
      exact Span.merge_between ordered apart reach.le short
  | cons first row =>
      obtain ⟨later, last, early, between, upper, closes⟩ := reach.concat (List.cons_ne_nil _ _)
      rw [closes]
      have := early.le
      exact Span.merge_between ordered (by omega) upper short

end Token.Reach

/-!
## What a grouping covers
-/

/-- The source that is read for the tree of a row reaches from its first token to its last
one, and all nodes lie there. A list lies between the tokens around it. -/
def Grouping.Covers : Grouping → List Token → Prop
  | .expression _ _ tree covered, row =>
      ∀ start stop, Token.Reach start stop row → stop < 2 ^ 32 →
        covered = .between start stop ∧ ∀ span ∈ tree.spans, span.Inside start stop
  | .list trees, row =>
      ∀ opened close start stop, Token.Reach start stop (opened :: (row ++ [close])) →
        stop < 2 ^ 32 → ∀ span ∈ ExpressionTree.allSpans trees, span.Inside start stop

theorem Grouping.Of.ne_nil {power behind : Nat} {tree : ExpressionTree} {covered : Span}
    {row : List Token} (grouped : (Grouping.expression power behind tree covered).Of row) :
    row ≠ [] := by
  obtain ⟨first, others, rfl, _⟩ := grouped.begins nofun
  exact List.cons_ne_nil _ _

/-- The place of a node in front of the places of the nodes below it. -/
private theorem inside_cons {start stop : Nat} {spans : List Span} (ordered : start ≤ stop)
    (below : ∀ span ∈ spans, span.Inside start stop) :
    ∀ span ∈ Span.between start stop :: spans, span.Inside start stop :=
  List.forall_mem_cons.mpr ⟨⟨start, stop, rfl, Nat.le_refl _, ordered, Nat.le_refl _⟩, below⟩

/-- The places of the nodes below a node with two parts. -/
private theorem inside_append {start stop middle next last : Nat} {left right : List Span}
    (first : ∀ span ∈ left, span.Inside start middle) (early : middle ≤ stop)
    (second : ∀ span ∈ right, span.Inside next last) (lower : start ≤ next)
    (upper : last ≤ stop) : ∀ span ∈ left ++ right, span.Inside start stop :=
  List.forall_mem_append.mpr
    ⟨fun span member => (first span member).mono (Nat.le_refl _) early,
      fun span member => (second span member).mono lower upper⟩

theorem Grouping.Of.covers {grouping : Grouping} {row : List Token} (grouped : grouping.Of row) :
    grouping.Covers row := by
  induction grouped with
  | enclosed _ grouped _ ih =>
      intro start stop reach short
      obtain ⟨first, middle, next, lower, inner, apart, last⟩ :=
        reach.inner grouped.ne_nil (List.cons_ne_nil _ _)
      have ordered := last.le
      obtain ⟨_, spans⟩ := ih first middle inner (by omega)
      exact ⟨reach.merge_ends short, fun span member =>
        (spans span member).mono lower (by omega)⟩
  | literal | name =>
      intro start stop reach short
      have placed := reach.single
      refine ⟨placed, ?_⟩
      rw [ExpressionTree.spans, placed]
      exact inside_cons reach.le (List.forall_mem_nil _)
  | unary operator _ _ grouped ih =>
      intro start stop reach short
      obtain ⟨middle, next, span, ordered, apart, inner⟩ := reach.cons grouped.ne_nil
      obtain ⟨rfl, spans⟩ := ih next stop inner short
      have merged := Span.merge_between ordered apart inner.le short
      rw [span, merged, ExpressionTree.spans]
      exact ⟨rfl, inside_cons reach.le fun span member =>
        (spans span member).mono (by omega) (Nat.le_refl _)⟩
  | middle operator _ _ left _ right leftIH rightIH =>
      intro start stop reach short
      obtain ⟨first, next, early, apart, late⟩ := reach.append left.ne_nil (List.cons_ne_nil _ _)
      obtain ⟨_, second, _, ordered, between, last⟩ := late.cons right.ne_nil
      have := last.le
      obtain ⟨rfl, leftSpans⟩ := leftIH start first early (by omega)
      obtain ⟨rfl, rightSpans⟩ := rightIH second stop last short
      have := early.le
      rw [Span.merge_between early.le (by omega : first ≤ second) last.le short,
        operator.spans_tree]
      exact ⟨rfl, inside_cons reach.le
        (inside_append leftSpans (by omega) rightSpans (by omega) (Nat.le_refl _))⟩
  | member _ grouped _ _ ih =>
      intro start stop reach short
      obtain ⟨first, next, early, apart, late⟩ :=
        reach.append grouped.ne_nil (List.cons_ne_nil _ _)
      obtain ⟨_, second, _, ordered, between, last⟩ := late.cons (List.cons_ne_nil _ _)
      have := last.le
      have := early.le
      obtain ⟨rfl, spans⟩ := ih start first early (by omega)
      rw [last.single, Span.merge_between early.le (by omega : first ≤ second) last.le short,
        ExpressionTree.spans]
      have name : ∀ span ∈ [Span.between second stop], span.Inside second stop :=
        inside_cons last.le (List.forall_mem_nil _)
      exact ⟨rfl, inside_cons reach.le
        (inside_append spans (by omega) name (by omega) (Nat.le_refl _))⟩
  | element _ grouped _ index _ objectIH indexIH =>
      intro start stop reach short
      obtain ⟨first, next, early, apart, late⟩ :=
        reach.append grouped.ne_nil (List.cons_ne_nil _ _)
      obtain ⟨lowest, highest, behind, lower, inner, between, last⟩ :=
        late.inner index.ne_nil (List.cons_ne_nil _ _)
      have := last.le
      have := early.le
      have := inner.le
      obtain ⟨rfl, spans⟩ := objectIH start first early (by omega)
      obtain ⟨_, indexSpans⟩ := indexIH lowest highest inner (by omega)
      rw [last.single, Span.merge_between early.le (by omega : first ≤ behind) last.le short,
        ExpressionTree.spans]
      exact ⟨rfl, inside_cons reach.le
        (inside_append spans (by omega) indexSpans (by omega) (by omega))⟩
  | array _ _ _ ih =>
      intro start stop reach short
      rw [reach.merge_ends short, ExpressionTree.spans]
      exact ⟨rfl, inside_cons reach.le (ih _ _ start stop reach short)⟩
  | call _ grouped _ _ _ calleeIH ih =>
      intro start stop reach short
      obtain ⟨first, next, early, apart, late⟩ :=
        reach.append grouped.ne_nil (List.cons_ne_nil _ _)
      obtain ⟨highest, behind, inner, between, upper, closes⟩ :=
        (List.cons_append ▸ late : Token.Reach next stop (_ :: _ ++ [_])).concat
          (List.cons_ne_nil _ _)
      have := early.le
      have := inner.le
      obtain ⟨rfl, spans⟩ := calleeIH start first early (by omega)
      rw [closes, Span.merge_between early.le (by omega : first ≤ behind) upper short,
        ExpressionTree.spans]
      exact ⟨rfl, inside_cons reach.le (inside_append spans (by omega)
        (ih _ _ next stop late short) (by omega) (Nat.le_refl _))⟩
  | nothing =>
      intro opened close start stop reach short span member
      cases member
  | last grouped ih =>
      intro opened close start stop reach short span member
      obtain ⟨first, middle, next, lower, inner, apart, last⟩ :=
        reach.inner grouped.ne_nil (List.cons_ne_nil _ _)
      have := last.le
      rw [ExpressionTree.allSpans, ExpressionTree.allSpans, List.append_nil] at member
      exact ((ih first middle inner (by omega)).2 span member).mono lower (by omega)
  | more grouped _ _ ih othersIH =>
      intro opened close start stop reach short span member
      rw [List.append_assoc, List.cons_append] at reach
      obtain ⟨first, middle, next, lower, inner, apart, last⟩ :=
        reach.inner grouped.ne_nil (List.cons_ne_nil _ _)
      have := last.le
      have := inner.le
      rcases List.mem_append.mp member with member | member
      · exact ((ih first middle inner (by omega)).2 span member).mono lower (by omega)
      · exact (othersIH _ _ next stop last short span member).mono (by omega) (Nat.le_refl _)

/-!
## The source of a row
-/

namespace LexicalItem

/-- The lexer passes a gap and then the tokens of a row, one behind the other. -/
theorem Passes.exists_reach {back front : List Char} {nesting offset last : Nat}
    {row : List Token} (passes : Passes back nesting offset front (row.map .ok) last)
    (some : row ≠ []) :
    ∃ gap text, front = gap ++ text ∧
      Token.Reach (offset + utf8Length gap) (offset + utf8Length front) row ∧
      Passes back nesting (offset + utf8Length gap) text (row.map .ok) last := by
  induction row generalizing nesting offset front with
  | nil => exact absurd rfl some
  | cons token row ih =>
      rw [List.map_cons] at passes
      cases passes with
      | @item _ _ _ gap more front character lexeme _ _ skipped found made rest =>
          refine ⟨gap, character :: (more ++ front), rfl, ?_, .item .nothing found made rest⟩
          have placed : token.span = Span.between (offset + utf8Length gap)
              (offset + utf8Length gap + utf8Length (character :: more)) := by
            cases lexeme with
            | blank => cases made
            | invalid cause => cases made
            | token kind =>
                cases made
                rfl
          have length : offset + utf8Length (gap ++ character :: (more ++ front)) =
              offset + utf8Length gap + utf8Length (character :: more) + utf8Length front := by
            simp [utf8Length, utf8Length_append, Nat.add_assoc]
          rw [length]
          cases row with
          | nil =>
              cases rest
              exact .last (Nat.le_add_right _ _) placed
          | cons second row =>
              obtain ⟨between, text, rfl, reach, _⟩ := ih rest (List.cons_ne_nil _ _)
              exact .more (Nat.le_add_right _ _) placed (Nat.le_add_right _ _) reach

/-- Where tokens of a source stand that are not its end. -/
theorem exists_stretch {source : String} {row : List Token}
    (stretch : row.map .ok <:+: scan source) (some : row ≠ [])
    (inner : ∀ token ∈ row, token.kind.endsLine = false) :
    ∃ front text back rest nesting last, source.toList = front ++ (text ++ back) ∧
      Token.Reach (utf8Length front) (utf8Length (front ++ text)) row ∧
      Passes rest nesting (utf8Length front) text (row.map .ok) last := by
  obtain ⟨chars, gap, items, final, spelled, passes, _, scanned⟩ := exists_passes_scan source
  obtain ⟨before, after, same⟩ := stretch
  -- The end of the source is none of these tokens, so it stands behind them.
  obtain ⟨fewer, rfl⟩ : ∃ fewer, items = before ++ (row.map .ok ++ fewer) := by
    rw [scanned, List.append_assoc] at same
    have others : after ≠ [] := by
      rintro rfl
      have ends := congrArg List.getLast? same
      rw [List.append_nil, List.getLast?_concat,
        List.getLast?_append_of_ne_nil _ (by simpa using some)] at ends
      obtain ⟨token, member, last⟩ := List.mem_map.mp (List.mem_of_getLast? ends)
      cases last
      cases inner _ member
    have behind := congrArg List.dropLast same
    rw [List.dropLast_concat, List.dropLast_append_of_ne_nil (by simp [others]),
      List.dropLast_append_of_ne_nil others] at behind
    exact ⟨_, behind.symm⟩
  obtain ⟨first, others, middle, rfl, _, passes⟩ := passes.split
  obtain ⟨second, third, last, rfl, passes, _⟩ := passes.split
  obtain ⟨between, text, rfl, reach, passes⟩ := passes.exists_reach some
  rw [Nat.zero_add, ← utf8Length_append] at passes
  rw [Nat.zero_add, ← utf8Length_append, ← utf8Length_append, ← List.append_assoc] at reach
  exact ⟨first ++ between, text, third ++ gap, _, _, _, by simpa using spelled, reach, passes⟩

/-- In parentheses the tokens of a balanced row are found again, and nothing else. -/
theorem scan_parenthesised {rest text : List Char} {nesting offset last : Nat}
    {row : List Token} (passes : Passes rest nesting offset text (row.map .ok) last)
    (balanced : Token.Balanced row) :
    ∃ (opened close : Token) (moved : List Token),
      opened.kind = .leftParenthesis ∧ close.kind = .rightParenthesis ∧
      moved.map Token.word = row.map Token.word ∧
      scan (String.ofList ('(' :: (text ++ [')']))) =
        (opened :: (moved ++ [close])).map .ok ++ [.ok ⟨.endOfSource, "",
          Span.between (utf8Length ('(' :: (text ++ [')'])))
            (utf8Length ('(' :: (text ++ [')'])))⟩] := by
  have apart : Lexeme.Apart [')'] := by
    rintro next ⟨⟩
    decide
  obtain ⟨moved, final, moves, same⟩ :=
    passes.transfer apart (balanced.sheltered nesting 1 Nat.one_pos) (0 + utf8Length ['('])
  have depth : final = 1 := by
    have kept : (moved.map .ok : List LexicalItem).map unplaced = (row.map .ok).map unplaced := by
      rw [map_unplaced_ok, map_unplaced_ok, same]
    rw [moves.last_eq, ← foldl_nestingAfter_unplaced, kept, foldl_nestingAfter_unplaced,
      List.foldl_map]
    exact balanced.depth 1 Nat.one_pos
  subst depth
  obtain ⟨close, closeKind, closes⟩ : ∃ close : Token, close.kind = .rightParenthesis ∧
      Passes [] 1 (0 + utf8Length ['('] + utf8Length text) [')'] [.ok close] 0 :=
    ⟨⟨.rightParenthesis, _, _⟩, rfl, .symbol rfl .nothing⟩
  obtain ⟨opened, openKind, opens⟩ : ∃ opened : Token, opened.kind = .leftParenthesis ∧
      Passes [] 0 0 ('(' :: (text ++ [')'])) (.ok opened :: (moved.map .ok ++ [.ok close])) 0 :=
    ⟨⟨.leftParenthesis, _, _⟩, rfl, .symbol rfl (moves.append closes)⟩
  have scanned := opens.scan
  rw [List.append_nil] at scanned
  refine ⟨opened, close, moved, openKind, closeKind, Token.map_word_of_unplaced same, ?_⟩
  rw [scan, String.toList_ofList, scanned]
  simp [scanFrom]

end LexicalItem

/-!
## Nodes
-/

/-- The node of the tree stands for `text`, behind `front` in the source. From the first to the
last byte of the text there are tokens of the source, one behind the other. Put in parentheses,
the text is read as the tree. If it ends at a position that fits into a span, which is kept in
words of 32 bits, the node covers exactly the text, and every node below it covers some of it. -/
structure ExpressionTree.StandsFor (source : String) (tree : ExpressionTree)
    (front text back : String) : Prop where
  split : source = front ++ (text ++ back)
  tokens : ∃ (before after : List LexicalItem) (row : List Token),
    LexicalItem.scan source = before ++ (row.map .ok ++ after) ∧
      Token.Reach front.utf8ByteSize (front ++ text).utf8ByteSize row
  readBack : tree.term.ReadFrom ("(" ++ (text ++ ")"))
  span : (front ++ text).utf8ByteSize < 2 ^ 32 →
    tree.span = .between front.utf8ByteSize (front ++ text).utf8ByteSize ∧
      ∀ inner ∈ tree.spans, tree.span.Contains inner

theorem ExpressionTree.Grouped.standsFor {source : String} {tree : ExpressionTree}
    (grouped : tree.Grouped source) : ∃ front text back, tree.StandsFor source front text back := by
  obtain ⟨power, behind, row, stretch, grouping⟩ := grouped
  have balanced := grouping.balanced
  obtain ⟨front, text, back, rest, nesting, last, spelled, reach, passes⟩ :=
    LexicalItem.exists_stretch stretch grouping.ne_nil balanced.inner
  obtain ⟨opened, close, moved, openKind, closeKind, same, scanned⟩ :=
    LexicalItem.scan_parenthesised passes balanced
  obtain ⟨before, after, parts⟩ := stretch
  have closes : close.kind.leftPower = 0 := by
    rw [closeKind]
    rfl
  have size : (String.ofList front ++ String.ofList text).utf8ByteSize =
      utf8Length (front ++ text) := by
    rw [← String.ofList_append, LexicalItem.utf8ByteSize_ofList]
  have wrapped : "(" ++ (String.ofList text ++ ")") = String.ofList ('(' :: (text ++ [')'])) := by
    apply String.toList_inj.mp
    simp
  refine ⟨String.ofList front, String.ofList text, String.ofList back, ?_, ?_, ?_, ?_⟩
  · apply String.toList_inj.mp
    simpa using spelled
  · refine ⟨before, after, row, by rw [← parts, List.append_assoc], ?_⟩
    rwa [size, LexicalItem.utf8ByteSize_ofList]
  · rw [wrapped]
    refine Term.readFrom_of_leads (by rw [scanned, String.toList_ofList]) fun ending ends => ?_
    exact Parse.leads_enclosed openKind closeKind (List.cons_ne_nil _ _)
      (grouping.leads moved close [ending] Script.empty 0 same
        (closes ▸ Nat.zero_le _) (Nat.zero_le _))
  · rw [size, LexicalItem.utf8ByteSize_ofList]
    intro short
    obtain ⟨covered, spans⟩ := grouping.covers _ _ reach short
    refine ⟨covered, fun inner member => ?_⟩
    rw [covered]
    exact (spans inner member).contains short

/-- Every node that the parser has added stands for a text of its source. Only what is said about
spans has a side condition: in a source of 4 GiB and more a span need not hold the positions. -/
theorem Script.ReadFrom.stands_for_text {source : String} {script : Script}
    (read : script.ReadFrom source) {reference : ExpressionRef} {expression : Expression}
    (found : script.expression? reference = some expression) :
    ∃ tree : ExpressionTree, tree.At script reference ∧ expression.span = tree.span ∧
      ∃ front text back, tree.StandsFor source front text back := by
  obtain ⟨tree, treeAt, grouped⟩ := read.grouped reference expression found
  exact ⟨tree, treeAt, treeAt.span_eq found, grouped.standsFor⟩

/-- The member access stands for more than its object does, which is in parentheses. -/
theorem Script.stands_for_text_member :
    ∃ script expression, Script.ofSource "not (a\n).b" = .ok script ∧
      script.expression? ⟨2⟩ = some expression ∧ expression.span = .between 4 10 ∧
      ∃ tree : ExpressionTree, tree.At script ⟨2⟩ ∧ expression.span = tree.span ∧
        ∃ front text back, tree.StandsFor "not (a\n).b" front text back := by
  have passed : ((Script.ofSource "not (a\n).b").toOption.bind fun script =>
      (script.expression? ⟨2⟩).map Expression.span) = some (.between 4 10) := by decide +kernel
  cases accepted : Script.ofSource "not (a\n).b" with
  | error failure =>
      rw [accepted] at passed
      cases passed
  | ok script =>
      rw [accepted] at passed
      obtain ⟨expression, found, span⟩ := Option.map_eq_some_iff.mp passed
      exact ⟨script, expression, rfl, found, span,
        (Script.readFrom_ofSource accepted).stands_for_text found⟩

end ScriptEngine
