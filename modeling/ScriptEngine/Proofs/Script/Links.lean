import Mathlib
import ScriptEngine.Proofs.Grammar.Refusal
import ScriptEngine.Proofs.Script.Rooted

/-!
# Following the handles of a script

Statements are reached from the first one through links: to the statement that
follows in the same sequence, and to the first statement of a body. In a script that
the parser gives every handle is in bounds, an expression stands behind its operands
and a compound behind its bodies, and every statement is entered by exactly one edge.
So there is exactly one way to every statement, and no way leads back to where it
began (`Script.wellFormed_of_finish`).
-/

set_option autoImplicit false

namespace ScriptEngine

/-- All expressions that a node refers to, whether or not they are always evaluated. -/
def Expression.children : Expression → List ExpressionRef
  | .constant .. | .name .. | .silent _ | .scopeNames _ => []
  | .unary _ operand _ => [operand]
  | .binary _ left right _ | .shortCircuit _ left right _ => [left, right]
  | .member object last _ => [object, last]
  | .element object index _ => [object, index]
  | .array elements _ => elements
  | .call callee arguments _ => callee :: arguments

def AssignTarget.expressions : AssignTarget → List ExpressionRef
  | .name _ => []
  | .member object _ => [object]
  | .element object index => [object, index]

/-- All expressions that a statement refers to. -/
def Statement.expressions : Statement → List ExpressionRef
  | .expression node => [node]
  | .print values => values
  | .assign target _ value _ => target.expressions ++ [value]
  | .branch branches _ => branches.map Prod.fst
  | .whileLoop condition _ => [condition]
  | .forLoop _ iterable _ _ => [iterable]
  | .returnValue value => value.toList
  | .breakLoops .. | .continueLoop _ | .pass | .delete .. | .define .. | .record .. => []

/-- From a statement to the next one, or to the first one of its body in a position. -/
inductive Link where
  | next
  | body (position : Nat)

/-- The handles to statements that a script holds. -/
inductive Edge where
  | first
  | of (this : StatementRef) (link : Link)

namespace Script

def linked (script : Script) (this : StatementRef) : Link → Option StatementRef
  | .next => script.next this
  | .body position =>
      (script.statement? this).bind fun statement => (statement.heads[position]?).join

def target (script : Script) : Edge → Option StatementRef
  | .first => script.first
  | .of this link => script.linked this link

def walk (script : Script) (start : StatementRef) : List Link → Option StatementRef
  | [] => some start
  | link :: links => (script.linked start link).bind fun next => script.walk next links

/-- Where a sequence of links leads to from the beginning of the script. -/
def follow (script : Script) (links : List Link) : Option StatementRef :=
  script.first.bind fun first => script.walk first links

end Script

/-- A statement that follows another stands behind it, and a body stands before its
compound. -/
def Edge.Ordered : Edge → StatementRef → Prop
  | .first, _ => True
  | .of this .next, target => this.index < target.index
  | .of this (.body _), target => target.index < this.index

/-- Handles lead where they should: none leaves the arena or leads round in a circle,
and every statement is reached in exactly one way. -/
structure Script.WellFormed (script : Script) : Prop where
  children : ∀ node expression, script.expression? node = some expression →
    ∀ child ∈ expression.children, child.index < node.index
  expressions : ∀ this statement, script.statement? this = some statement →
    ∀ node ∈ statement.expressions, node.index < script.expressions.size
  targets : ∀ edge this, script.target edge = some this →
    this.index < script.statements.size ∧ edge.Ordered this
  entered : ∀ this : StatementRef, this.index < script.statements.size →
    ∃! edge, script.target edge = some this
  reached : ∀ this : StatementRef, this.index < script.statements.size →
    ∃! links, script.follow links = some this
  acyclic : ∀ this : StatementRef, this.index < script.statements.size →
    ∀ links, script.walk this links = some this → links = []

/-!
## Handles to expressions
-/

theorem ExpressionTree.At.child {script : Script} {tree : ExpressionTree} {node : ExpressionRef}
    (spelled : tree.At script node) {expression : Expression}
    (found : script.expression? node = some expression) {child : ExpressionRef}
    (member : child ∈ expression.children) : child.index < node.index := by
  cases tree with
  | constant | name =>
      obtain rfl := Option.some.inj (found.symm.trans spelled)
      cases member
  | unary operator operand span =>
      obtain ⟨inner, same, before, _⟩ := spelled
      obtain rfl := Option.some.inj (found.symm.trans same)
      obtain rfl := List.mem_singleton.mp member
      exact before
  | binary | shortCircuit | element | member =>
      obtain ⟨first, second, same, ⟨firstBefore, _⟩, secondBefore, _⟩ := spelled
      obtain rfl := Option.some.inj (found.symm.trans same)
      rcases List.mem_cons.mp member with rfl | member
      · exact firstBefore
      · obtain rfl := List.mem_singleton.mp member
        exact secondBefore
  | array elements span =>
      obtain ⟨items, same, elementsAt⟩ := spelled
      obtain rfl := Option.some.inj (found.symm.trans same)
      exact (elementsAt.mem member).1
  | call callee arguments span =>
      obtain ⟨first, items, same, ⟨calleeBefore, _⟩, argumentsAt⟩ := spelled
      obtain rfl := Option.some.inj (found.symm.trans same)
      rcases List.mem_cons.mp member with rfl | member
      · exact calleeBefore
      · exact (argumentsAt.mem member).1

theorem Statement.Rooted.expressions {script : Script} {statement : Statement}
    (rooted : statement.Rooted script) {node : ExpressionRef}
    (member : node ∈ statement.expressions) : node.index < script.expressions.size := by
  cases statement with
  | expression | whileLoop | forLoop =>
      obtain rfl := List.mem_singleton.mp member
      exact rooted
  | print values => exact rooted node member
  | assign target operator value span =>
      obtain ⟨targetRooted, valuePresent⟩ := rooted
      rcases List.mem_append.mp member with member | member
      · cases target with
        | name => cases member
        | member object identifier =>
            obtain rfl := List.mem_singleton.mp member
            exact targetRooted
        | element object index =>
            rcases List.mem_cons.mp member with rfl | member
            · exact targetRooted.1
            · obtain rfl := List.mem_singleton.mp member
              exact targetRooted.2
      · obtain rfl := List.mem_singleton.mp member
        exact valuePresent
  | branch branches otherwise =>
      obtain ⟨test, inBranches, rfl⟩ := List.mem_map.mp member
      exact rooted test inBranches
  | returnValue value => exact rooted node (Option.mem_toList.mp member)
  | breakLoops | continueLoop | pass | delete | define | record => cases member

/-!
## Stretches of slots
-/

/-- The edge leaves a slot of the stretch. -/
def Edge.Within (start stop : Nat) : Edge → Prop
  | .first => False
  | .of this _ => start ≤ this.index ∧ this.index < stop

/-- The edges of the stretch, together with the edges that lead into it from outside,
enter each of its slots once and no other, and every slot is reached from outside. -/
structure Spans (script : Script) (outside : Edge → Prop) (start stop : Nat) : Prop where
  inside : ∀ edge this, outside edge ∨ edge.Within start stop → script.target edge = some this →
    start ≤ this.index ∧ this.index < stop ∧ edge.Ordered this
  entered : ∀ this : StatementRef, start ≤ this.index → this.index < stop →
    ∃! edge, (outside edge ∨ edge.Within start stop) ∧ script.target edge = some this
  reached : ∀ this : StatementRef, start ≤ this.index → this.index < stop →
    ∃ edge links, outside edge ∧
      ((script.target edge).bind fun entry => script.walk entry links) = some this

namespace Spans

variable {script : Script} {outside others : Edge → Prop} {start middle stop : Nat}

theorem empty (leads : ∀ edge, outside edge → script.target edge = none) :
    Spans script outside start start where
  inside edge this known found := by
    rcases known with known | within
    · rw [leads edge known] at found
      cases found
    · cases edge with
      | first => exact within.elim
      | of origin link => exact absurd within.1 (Nat.not_le_of_lt within.2)
  entered this lower upper := absurd lower (Nat.not_le_of_lt upper)
  reached this lower upper := absurd lower (Nat.not_le_of_lt upper)

/-- Edges that lead nowhere do not matter. -/
theorem congr (spans : Spans script outside start stop)
    (same : ∀ edge this, script.target edge = some this → (outside edge ↔ others edge)) :
    Spans script others start stop where
  inside edge this known found :=
    spans.inside edge this (known.imp_left (same edge this found).mpr) found
  entered this lower upper := by
    obtain ⟨edge, ⟨known, found⟩, unique⟩ := spans.entered this lower upper
    refine ⟨edge, ⟨known.imp_left (same edge this found).mp, found⟩, ?_⟩
    rintro other ⟨otherKnown, otherFound⟩
    exact unique other ⟨otherKnown.imp_left (same other this otherFound).mpr, otherFound⟩
  reached this lower upper := by
    obtain ⟨edge, links, known, leads⟩ := spans.reached this lower upper
    obtain ⟨entry, found, _⟩ := Option.bind_eq_some_iff.mp leads
    exact ⟨edge, links, (same edge entry found).mp known, leads⟩

private theorem within_append (le : start ≤ middle) (le' : middle ≤ stop) (edge : Edge) :
    edge.Within start stop ↔ edge.Within start middle ∨ edge.Within middle stop := by
  cases edge with
  | first => simp [Edge.Within]
  | of this link =>
      simp only [Edge.Within]
      omega

theorem append (le : start ≤ middle) (le' : middle ≤ stop)
    (first : Spans script outside start middle) (second : Spans script others middle stop) :
    Spans script (fun edge => outside edge ∨ others edge) start stop := by
  have split (edge : Edge) :
      ((outside edge ∨ others edge) ∨ edge.Within start stop) ↔
        (outside edge ∨ edge.Within start middle) ∨ (others edge ∨ edge.Within middle stop) := by
    rw [within_append le le']
    tauto
  refine ⟨?_, ?_, ?_⟩
  · intro edge this known found
    rcases (split edge).mp known with known | known
    · obtain ⟨lower, upper, ordered⟩ := first.inside edge this known found
      exact ⟨lower, by omega, ordered⟩
    · obtain ⟨lower, upper, ordered⟩ := second.inside edge this known found
      exact ⟨by omega, upper, ordered⟩
  · intro this lower upper
    rcases Nat.lt_or_ge this.index middle with early | late
    · obtain ⟨edge, ⟨known, found⟩, unique⟩ := first.entered this lower early
      refine ⟨edge, ⟨(split edge).mpr (.inl known), found⟩, ?_⟩
      rintro other ⟨otherKnown, otherFound⟩
      rcases (split other).mp otherKnown with otherKnown | otherKnown
      · exact unique other ⟨otherKnown, otherFound⟩
      · have := (second.inside other this otherKnown otherFound).1
        omega
    · obtain ⟨edge, ⟨known, found⟩, unique⟩ := second.entered this late upper
      refine ⟨edge, ⟨(split edge).mpr (.inr known), found⟩, ?_⟩
      rintro other ⟨otherKnown, otherFound⟩
      rcases (split other).mp otherKnown with otherKnown | otherKnown
      · have := (first.inside other this otherKnown otherFound).2.1
        omega
      · exact unique other ⟨otherKnown, otherFound⟩
  · intro this lower upper
    rcases Nat.lt_or_ge this.index middle with early | late
    · obtain ⟨edge, links, known, leads⟩ := first.reached this lower early
      exact ⟨edge, links, .inl known, leads⟩
    · obtain ⟨edge, links, known, leads⟩ := second.reached this late upper
      exact ⟨edge, links, .inr known, leads⟩

private theorem eq_of_index {this that : StatementRef} (same : that.index = this.index) :
    that = this := by
  cases that
  cases this
  exact congrArg StatementRef.mk same

/-- The edges of a stretch around a statement: those into and within its bodies, and those
into and within what follows it. -/
private theorem within_cons {this : StatementRef} (lower : start ≤ this.index)
    (upper : this.index < stop) (edge : Edge) :
    edge.Within start stop ↔
      ((∃ position, edge = .of this (.body position)) ∨ edge.Within start this.index) ∨
        (edge = .of this .next ∨ edge.Within (this.index + 1) stop) := by
  constructor
  · intro within
    cases edge with
    | first => exact within.elim
    | of origin link =>
        obtain ⟨originLower, originUpper⟩ := within
        rcases Nat.lt_trichotomy origin.index this.index with before | own | behind
        · exact .inl (.inr ⟨originLower, before⟩)
        · obtain rfl := eq_of_index own
          cases link with
          | next => exact .inr (.inl rfl)
          | body position => exact .inl (.inl ⟨position, rfl⟩)
        · exact .inr (.inr ⟨behind, originUpper⟩)
  · rintro ((⟨position, rfl⟩ | within) | (rfl | within))
    · exact ⟨lower, upper⟩
    · exact (within_append lower (Nat.le_of_lt upper) edge).mpr (.inl within)
    · exact ⟨lower, upper⟩
    · exact (within_append (Nat.le_succ_of_le lower) upper edge).mpr (.inr within)

/-- A statement behind its bodies, and what follows it. -/
theorem cons {entry : Edge} {this : StatementRef} (lower : start ≤ this.index)
    (upper : this.index < stop) (leads : script.target entry = some this)
    (ordered : entry.Ordered this)
    (bodies : Spans script (fun edge => ∃ position, edge = .of this (.body position)) start
      this.index)
    (rest : Spans script (· = .of this .next) (this.index + 1) stop) :
    Spans script (· = entry) start stop := by
  have parts := within_cons lower upper
  have own {that : StatementRef} (found : script.target entry = some that) : that = this :=
    Option.some.inj (found.symm.trans leads)
  refine ⟨?_, ?_, ?_⟩
  · rintro edge that (rfl | within) found
    · obtain rfl := own found
      exact ⟨lower, upper, ordered⟩
    · rcases (parts edge).mp within with known | known
      · obtain ⟨thatLower, thatUpper, thatOrdered⟩ := bodies.inside edge that known found
        exact ⟨thatLower, by omega, thatOrdered⟩
      · obtain ⟨thatLower, thatUpper, thatOrdered⟩ := rest.inside edge that known found
        exact ⟨by omega, thatUpper, thatOrdered⟩
  · intro that thatLower thatUpper
    -- an edge into the slots on one side of the statement is none into the other side
    rcases Nat.lt_trichotomy that.index this.index with before | same | behind
    · obtain ⟨edge, ⟨known, found⟩, unique⟩ := bodies.entered that thatLower before
      refine ⟨edge, ⟨.inr ((parts edge).mpr (.inl known)), found⟩, ?_⟩
      rintro other ⟨rfl | within, otherFound⟩
      · obtain rfl := own otherFound
        omega
      · rcases (parts other).mp within with otherKnown | otherKnown
        · exact unique other ⟨otherKnown, otherFound⟩
        · have := (rest.inside other that otherKnown otherFound).1
          omega
    · obtain rfl := eq_of_index same
      refine ⟨entry, ⟨.inl rfl, leads⟩, ?_⟩
      rintro other ⟨isEntry | within, otherFound⟩
      · exact isEntry
      · rcases (parts other).mp within with otherKnown | otherKnown
        · exact absurd (bodies.inside other that otherKnown otherFound).2.1 (Nat.lt_irrefl _)
        · exact absurd (rest.inside other that otherKnown otherFound).1 (Nat.not_succ_le_self _)
    · obtain ⟨edge, ⟨known, found⟩, unique⟩ := rest.entered that behind thatUpper
      refine ⟨edge, ⟨.inr ((parts edge).mpr (.inr known)), found⟩, ?_⟩
      rintro other ⟨rfl | within, otherFound⟩
      · obtain rfl := own otherFound
        omega
      · rcases (parts other).mp within with otherKnown | otherKnown
        · have := (bodies.inside other that otherKnown otherFound).2.1
          omega
        · exact unique other ⟨otherKnown, otherFound⟩
  · intro that thatLower thatUpper
    refine ⟨entry, ?_⟩
    rw [leads]
    rcases Nat.lt_trichotomy that.index this.index with before | same | behind
    · obtain ⟨edge, links, ⟨position, rfl⟩, ways⟩ := bodies.reached that thatLower before
      exact ⟨.body position :: links, rfl, ways⟩
    · obtain rfl := eq_of_index same
      exact ⟨[], rfl, rfl⟩
    · obtain ⟨edge, links, rfl, ways⟩ := rest.reached that behind thatUpper
      exact ⟨.next :: links, rfl, ways⟩

end Spans

/-!
## The slots that a block fills
-/

private theorem target_body {script : Script} {this : StatementRef} {statement : Statement}
    (found : script.statement? this = some statement) (position : Nat) :
    script.target (.of this (.body position)) = (statement.heads[position]?).join := by
  simp only [Script.target, Script.linked, found, Option.bind_some]

private theorem spans_leaf {script : Script} {this : StatementRef} {statement : Statement}
    {start : Nat} (found : script.statement? this = some statement) (leaf : statement.heads = [])
    (own : start = this.index) :
    Spans script (fun edge => ∃ position, edge = .of this (.body position)) start this.index := by
  subst own
  refine Spans.empty ?_
  rintro edge ⟨position, rfl⟩
  rw [target_body found, leaf]
  rfl

private theorem spans_compound {script : Script} {this : StatementRef} {statement : Statement}
    {start : Nat} {head : Option StatementRef} (found : script.statement? this = some statement)
    (one : statement.heads = [head])
    (body : Spans script (· = .of this (.body 0)) start this.index) :
    Spans script (fun edge => ∃ position, edge = .of this (.body position)) start this.index := by
  refine body.congr fun edge entry leads => ⟨fun same => ⟨0, same⟩, ?_⟩
  rintro ⟨position, rfl⟩
  rw [target_body found, one] at leads
  cases position with
  | zero => rfl
  | succ position => cases leads

/-- A body stands before its compound. -/
private theorem ordered_body {this : StatementRef} (position start : Nat) {stop : Nat}
    (upper : stop ≤ this.index) (entry : StatementRef) (_ : start ≤ entry.index)
    (entryUpper : entry.index < stop) : (Edge.of this (.body position)).Ordered entry :=
  Nat.lt_of_lt_of_le entryUpper upper

mutual

theorem StatementTree.Laid.spans {script : Script} (tree : StatementTree) {start : Nat}
    {this : StatementRef} (laid : tree.Laid script start this) :
    Spans script (fun edge => ∃ position, edge = .of this (.body position)) start
      this.index := by
  cases tree with
  | expression | print | assignName =>
      obtain ⟨_, found, _, own⟩ := laid
      exact spans_leaf found rfl own
  | assignMember =>
      obtain ⟨_, _, found, _, _, own⟩ := laid
      exact spans_leaf found rfl own
  | assignElement =>
      obtain ⟨_, _, _, found, _, _, _, own⟩ := laid
      exact spans_leaf found rfl own
  | branch branches =>
      obtain ⟨bodies, otherwise, found, branchesLaid⟩ := laid
      refine (branchesLaid.spans branches found [] rfl (Nat.le_refl _)).congr ?_
      intro edge entry _
      exact ⟨fun ⟨position, _, same⟩ => ⟨position, same⟩,
        fun ⟨position, same⟩ => ⟨position, Nat.zero_le _, same⟩⟩
  | whileLoop condition body | forLoop item condition body span =>
      obtain ⟨node, head, found, _, bodyLaid⟩ := laid
      exact spans_compound found rfl
        (BlockLaid.spans body bodyLaid (target_body found 0)
          (ordered_body 0 start (Nat.le_refl _)))
  | breakLoops | continueLoop | pass | delete => exact spans_leaf laid.1 rfl laid.2
  | returnValue value =>
      cases value with
      | none => exact spans_leaf laid.1 rfl laid.2
      | some value =>
          obtain ⟨_, found, _, own⟩ := laid
          exact spans_leaf found rfl own
  | define name parameters entry body =>
      obtain ⟨found, bodyLaid⟩ := laid
      exact spans_compound found rfl
        (BlockLaid.spans body bodyLaid (target_body found 0)
          (ordered_body 0 start (Nat.le_refl _)))
  | record name body span =>
      obtain ⟨head, found, bodyLaid⟩ := laid
      exact spans_compound found rfl
        (BlockLaid.spans body bodyLaid (target_body found 0)
          (ordered_body 0 start (Nat.le_refl _)))

/-- The bodies of branches, which are those of the statement behind the ones that
were spelled `before`. -/
theorem BranchTree.Laid.spans {script : Script} (tree : BranchTree)
    {branches : List (ExpressionRef × Option StatementRef)}
    {otherwise : Option (Option StatementRef)} {start stop : Nat}
    (laid : tree.Laid script branches otherwise start stop) {this : StatementRef}
    {statement : Statement} (found : script.statement? this = some statement)
    (before : List (Option StatementRef))
    (heads : statement.heads = before ++ (branches.map Prod.snd ++ otherwise.toList))
    (upper : stop ≤ this.index) :
    Spans script (fun edge => ∃ position, before.length ≤ position ∧
      edge = .of this (.body position)) start stop := by
  match tree with
  | .missing =>
      obtain ⟨rfl, rfl, rfl⟩ := laid
      refine Spans.empty ?_
      rintro edge ⟨position, behind, rfl⟩
      rw [target_body found, heads]
      simp [behind]
  | .otherwise body =>
      obtain ⟨head, rfl, rfl, bodyLaid⟩ := laid
      have ordered := @ordered_body this before.length start _ upper
      have leads : script.target (.of this (.body before.length)) = head := by
        rw [target_body found, heads]
        simp
      refine (BlockLaid.spans body bodyLaid leads ordered).congr fun edge entry known => ?_
      constructor
      · rintro rfl
        exact ⟨_, Nat.le_refl _, rfl⟩
      · rintro ⟨position, behind, rfl⟩
        rw [target_body found, heads] at known
        rcases Nat.eq_or_lt_of_le behind with rfl | behind
        · rfl
        · have outside : (before ++ [head])[position]? = none := by
            rw [List.getElem?_eq_none_iff, List.length_append]
            exact behind
          simp [outside] at known
  | .test condition body rest =>
      obtain ⟨node, head, more, middle, rfl, _, bodyLaid, restLaid⟩ := laid
      have bodyLe := BlockLaid.le body bodyLaid
      have restLe := restLaid.le rest
      have ordered := @ordered_body this before.length start _ (Nat.le_trans restLe upper)
      have leads : script.target (.of this (.body before.length)) = head := by
        rw [target_body found, heads]
        simp
      have restSpans := restLaid.spans rest found (before ++ [head]) (by simp [heads]) upper
      refine (Spans.append bodyLe restLe (BlockLaid.spans body bodyLaid leads ordered)
        restSpans).congr fun edge entry _ => ?_
      rw [List.length_append, List.length_singleton]
      constructor
      · rintro (rfl | ⟨position, behind, rfl⟩)
        · exact ⟨_, Nat.le_refl _, rfl⟩
        · exact ⟨position, Nat.le_of_succ_le behind, rfl⟩
      · rintro ⟨position, behind, rfl⟩
        rcases Nat.eq_or_lt_of_le behind with rfl | behind
        · exact .inl rfl
        · exact .inr ⟨position, behind, rfl⟩

theorem BlockLaid.spans {script : Script} (block : List StatementTree)
    {head : Option StatementRef} {start stop : Nat} (laid : BlockLaid script block head start stop)
    {entry : Edge} (leads : script.target entry = head)
    (ordered : ∀ this : StatementRef, start ≤ this.index → this.index < stop →
      entry.Ordered this) : Spans script (· = entry) start stop := by
  cases block with
  | nil =>
      obtain ⟨rfl, rfl⟩ := laid
      refine Spans.empty ?_
      rintro edge rfl
      exact leads
  | cons tree rest =>
      obtain ⟨this, rfl, treeLaid, restLaid⟩ := laid
      have lower := treeLaid.le tree
      have upper := BlockLaid.le rest restLaid
      have restSpans : Spans script (· = .of this .next) (this.index + 1) stop :=
        BlockLaid.spans rest restLaid rfl fun following behind _ => behind
      exact Spans.cons lower upper leads (ordered this lower upper) (treeLaid.spans tree) restSpans

end

/-!
## Ways from the beginning
-/

theorem Script.follow_append (script : Script) (links more : List Link) :
    script.follow (links ++ more) =
      (script.follow links).bind fun this => script.walk this more := by
  have walked (start : StatementRef) : script.walk start (links ++ more) =
      (script.walk start links).bind fun this => script.walk this more := by
    induction links generalizing start with
    | nil => simp [Script.walk]
    | cons first links ih => simp [Script.walk, ih, Option.bind_assoc]
  simp [Script.follow, walked, Option.bind_assoc]

theorem Script.follow_concat (script : Script) (links : List Link) (link : Link) :
    script.follow (links ++ [link]) =
      (script.follow links).bind fun this => script.linked this link := by
  simp [Script.follow_append, Script.walk]

/-- Where no statement is entered twice, there are no two ways to one. -/
theorem Script.follow_unique {script : Script}
    (once : ∀ edge other this, script.target edge = some this → script.target other = some this →
      edge = other) {links others : List Link} {this : StatementRef}
    (leads : script.follow links = some this) (otherLeads : script.follow others = some this) :
    links = others := by
  have first (this : StatementRef) (leads : script.follow [] = some this) :
      script.target .first = some this := by
    simpa [Script.follow, Script.walk, Script.target] using leads
  induction links using List.reverseRecOn generalizing others this with
  | nil =>
      rcases List.eq_nil_or_concat others with rfl | ⟨others, last, rfl⟩
      · rfl
      · rw [List.concat_eq_append, Script.follow_concat] at otherLeads
        obtain ⟨origin, _, enters⟩ := Option.bind_eq_some_iff.mp otherLeads
        cases once (.of origin last) .first this enters (first this leads)
  | append_singleton links link ih =>
      rw [Script.follow_concat] at leads
      obtain ⟨origin, originLeads, enters⟩ := Option.bind_eq_some_iff.mp leads
      rcases List.eq_nil_or_concat others with rfl | ⟨others, last, rfl⟩
      · cases once (.of origin link) .first this enters (first this otherLeads)
      · rw [List.concat_eq_append, Script.follow_concat] at otherLeads
        obtain ⟨other, otherOrigin, otherEnters⟩ := Option.bind_eq_some_iff.mp otherLeads
        cases once (.of origin link) (.of other last) this enters otherEnters
        rw [List.concat_eq_append, ih originLeads otherOrigin]

private theorem within_of_target {script : Script} {edge : Edge} {this : StatementRef}
    (leads : script.target edge = some this) :
    edge = .first ∨ edge.Within 0 script.statements.size := by
  cases edge with
  | first => exact .inl rfl
  | of origin link =>
      refine .inr ⟨Nat.zero_le _, ?_⟩
      cases link with
      | next =>
          obtain ⟨slot, found, _⟩ := Option.bind_eq_some_iff.mp leads
          exact (Array.getElem?_eq_some_iff.mp found).choose
      | body position =>
          obtain ⟨statement, found, _⟩ := Option.bind_eq_some_iff.mp leads
          obtain ⟨slot, slotFound, _⟩ := Option.map_eq_some_iff.mp found
          exact (Array.getElem?_eq_some_iff.mp slotFound).choose

theorem Script.Whole.wellFormed {script : Script} (whole : script.Whole) : script.WellFormed := by
  obtain ⟨tree, laid⟩ := whole.laid
  have spans : Spans script (· = .first) 0 script.statements.size :=
    BlockLaid.spans tree laid rfl fun _ _ _ => trivial
  have entered (this : StatementRef) (present : this.index < script.statements.size) :
      ∃! edge, script.target edge = some this := by
    obtain ⟨edge, ⟨_, leads⟩, unique⟩ := spans.entered this (Nat.zero_le _) present
    exact ⟨edge, leads, fun other otherLeads =>
      unique other ⟨within_of_target otherLeads, otherLeads⟩⟩
  have inside (edge : Edge) (this : StatementRef) (leads : script.target edge = some this) :
      this.index < script.statements.size ∧ edge.Ordered this :=
    (spans.inside edge this (within_of_target leads) leads).2
  have once (edge other : Edge) (this : StatementRef) (leads : script.target edge = some this)
      (otherLeads : script.target other = some this) : edge = other :=
    (entered this (inside edge this leads).1).unique leads otherLeads
  have reached (this : StatementRef) (present : this.index < script.statements.size) :
      ∃! links, script.follow links = some this := by
    obtain ⟨edge, links, rfl, leads⟩ := spans.reached this (Nat.zero_le _) present
    exact ⟨links, leads, fun others otherLeads => Script.follow_unique once otherLeads leads⟩
  refine ⟨?_, ?_, inside, entered, reached, ?_⟩
  · intro node expression found child member
    obtain ⟨tree, spelled⟩ := whole.planted node (Array.getElem?_eq_some_iff.mp found).choose
    exact spelled.child found member
  · intro this statement found node member
    obtain ⟨_, ⟨tree, start, treeLaid⟩, _⟩ := whole.filled.of_statement? found
    exact (treeLaid.rooted found).expressions member
  · intro this present links circle
    -- a way to the statement that goes on once round the circle is no second way
    obtain ⟨way, leads, unique⟩ := reached this present
    have around : script.follow (way ++ links) = some this := by
      rw [Script.follow_append, leads]
      exact circle
    exact List.append_right_eq_self.mp (unique _ around)

/-- The script of an accepted source is well-formed, also when expressions were asked for
before, whether or not there were any. -/
theorem Script.wellFormed_of_finish (source : String) (attempts : Nat) {script : Script}
    (finished : (Cursor.afterExpression^[attempts] (Cursor.ofSource source)).finish = .ok script) :
    script.WellFormed :=
  (Cursor.finish_whole_iterate finished).wellFormed

/-- The first attempt is refused at the parenthesis, and the second one takes the negation. -/
theorem Script.wellFormed_behind_attempts :
    ∃ script,
      (Cursor.afterExpression^[2]
        (Cursor.ofSource ") not t\nif x\nwhile y : y . z = [ x ]\nend\nrecord r ;\n")).finish =
          .ok script ∧
        script.statements.size = 4 ∧ script.expressions.size = 9 ∧ script.WellFormed := by
  have accepted :
      ((Cursor.afterExpression^[2]
          (Cursor.ofSource ") not t\nif x\nwhile y : y . z = [ x ]\nend\nrecord r ;\n")).finish
        ).toOption.any (fun script => script.statements.size == 4 &&
          script.expressions.size == 9) = true := by
    cbv
  generalize finished : Cursor.finish _ = answer at accepted
  cases answer with
  | error failure => cases accepted
  | ok script =>
      simp only [Except.toOption, Option.any_some, Bool.and_eq_true, beq_iff_eq] at accepted
      exact ⟨script, rfl, accepted.1, accepted.2, Script.wellFormed_of_finish _ 2 finished⟩

end ScriptEngine
