import ScriptEngine.Proofs.Grammar.Growth
import ScriptEngine.Proofs.Token.Tiling

/-!
# The places of nodes

Every node of a script that the parser has built from a source covers bytes of this source,
and the place of a `for` loop reaches from its keyword to what it goes through
(`Script.ReadFrom.placed`). No bound on the length of the source is needed: where positions
wrap, so do the places that are merged of them.
-/

set_option autoImplicit false

namespace ScriptEngine

/-- The source that the node covers. -/
def Expression.span : Expression → Span
  | constant _ span => span
  | name _ span => span
  | unary _ _ span => span
  | binary _ _ _ span => span
  | shortCircuit _ _ _ span => span
  | member _ _ span => span
  | element _ _ span => span
  | array _ span => span
  | call _ _ span => span
  | silent span => span
  | scopeNames span => span

/-- The place of the statement, if errors can arise in the statement itself. -/
def Statement.span? : Statement → Option Span
  | assign _ _ _ span => some span
  | forLoop _ _ _ span => some span
  | breakLoops _ span => some span
  | continueLoop span => some span
  | delete _ span => some span
  | record _ _ span => some span
  | _ => none

namespace Span

theorem start_merge (left right : Span) :
    (left.merge right).start.toNat = min left.start.toNat right.start.toNat := by
  change (if left.start ≤ right.start then left.start else right.start).toNat = _
  rw [Nat.min_def]
  simp only [UInt32.le_iff_toNat_le]
  split <;> rfl

theorem length_merge (left right : Span) :
    (left.merge right).length.toNat = (2 ^ 32 - (left.merge right).start.toNat +
      max left.stop.toNat right.stop.toNat) % 2 ^ 32 := by
  have stop : (if left.stop ≤ right.stop then right.stop else left.stop).toNat =
      max left.stop.toNat right.stop.toNat := by
    rw [Nat.max_def]
    simp only [UInt32.le_iff_toNat_le]
    split <;> rfl
  rw [← stop]
  exact UInt32.toNat_sub _ _

end Span

namespace Span.Within

variable {source : String} {left right : Span}

theorem between {start stop : Nat} (ordered : start ≤ stop) (inside : stop ≤ source.utf8ByteSize) :
    (Span.between start stop).Within source := by
  have first := Nat.mod_le start (2 ^ 32)
  have count := Nat.mod_le (stop - start) (2 ^ 32)
  simp only [Within, Span.between, UInt32.toNat_ofNat']
  omega

theorem merge (leftWithin : left.Within source) (rightWithin : right.Within source) :
    (left.merge right).Within source := by
  unfold Within at leftWithin rightWithin ⊢
  have leftStop : left.stop.toNat = (left.start.toNat + left.length.toNat) % 2 ^ 32 :=
    UInt32.toNat_add _ _
  have rightStop : right.stop.toNat = (right.start.toNat + right.length.toNat) % 2 ^ 32 :=
    UInt32.toNat_add _ _
  have start := start_merge left right
  have length := length_merge left right
  have := left.start.toNat_lt
  have := right.start.toNat_lt
  have := left.length.toNat_lt
  have := right.length.toNat_lt
  omega

end Span.Within

/-- The token stands in the source. The end of the source may be read again and again. -/
structure Token.From (source : String) (token : Token) : Prop where
  within : token.span.Within source
  scanned : token.kind ≠ .endOfSource → .ok token ∈ LexicalItem.scan source

/-- The source that is read for an expression: what its node covers, perhaps with
parentheses around it. -/
inductive Covers (source : String) (script : Script) (node : ExpressionRef) : Span → Prop where
  | node {expression : Expression} (found : script.expression? node = some expression) :
      Covers source script node expression.span
  | parenthesised {inner : Span} {opening closing : Token} (covers : Covers source script node inner)
      (opens : .ok opening ∈ LexicalItem.scan source)
      (openingKind : opening.kind = .leftParenthesis)
      (closes : .ok closing ∈ LexicalItem.scan source)
      (closingKind : closing.kind = .rightParenthesis) :
      Covers source script node (opening.span.merge closing.span)

theorem Covers.grow {source : String} {old new : Script} {node : ExpressionRef} {span : Span}
    (grown : old.KeepsExpressions new) (covers : Covers source old node span) :
    Covers source new node span := by
  induction covers with
  | node found => exact .node (grown.expression? found)
  | parenthesised _ opens openingKind closes closingKind ih =>
      exact .parenthesised ih opens openingKind closes closingKind

/-- The expression stands in the source, and covers its node there. -/
structure ParsedExpression.Placed (source : String) (script : Script) (parsed : ParsedExpression) :
    Prop where
  within : parsed.span.Within source
  covers : Covers source script parsed.node parsed.span

/-- The place reaches from the keyword of a loop to the end of what it goes through. -/
def Span.FromKeyword (source : String) (script : Script) (iterable : ExpressionRef)
    (span : Span) : Prop :=
  ∃ keyword covered, .ok keyword ∈ LexicalItem.scan source ∧ keyword.kind = .forWord ∧
    Covers source script iterable covered ∧ span = keyword.span.merge covered

/-- The place of a statement is one of the source. -/
structure Statement.Placed (source : String) (script : Script) (statement : Statement) :
    Prop where
  within : ∀ span, statement.span? = some span → span.Within source
  loop : ∀ item iterable body span, statement = .forLoop item iterable body span →
    span.FromKeyword source script iterable

theorem Statement.Placed.grow {source : String} {old new : Script} {statement : Statement}
    (grown : old.KeepsExpressions new) (placed : statement.Placed source old) :
    statement.Placed source new where
  within := placed.within
  loop item iterable body span same := by
    obtain ⟨keyword, covered, scanned, kind, covers, merged⟩ :=
      placed.loop item iterable body span same
    exact ⟨keyword, covered, scanned, kind, covers.grow grown, merged⟩

/-- A statement that is no loop over a value. -/
theorem Statement.Placed.of_within {source : String} {script : Script} {statement : Statement}
    (within : ∀ span, statement.span? = some span → span.Within source)
    (other : ∀ item iterable body span, statement ≠ .forLoop item iterable body span) :
    statement.Placed source script :=
  ⟨within, fun item iterable body span same => (other item iterable body span same).elim⟩

theorem Script.statement?_link (script : Script) (sequence : List StatementRef)
    (reference : StatementRef) :
    (script.link sequence).statement? reference = script.statement? reference := by
  induction sequence generalizing script with
  | nil => rfl
  | cons statement rest ih =>
      cases rest with
      | nil => rfl
      | cons following rest =>
          rw [Script.link, ih, script.statement?_setNext]

/-- All nodes are placed in the source. -/
structure Script.Placed (source : String) (script : Script) : Prop where
  expressions : ∀ expression ∈ script.expressions, expression.span.Within source
  statements : ∀ slot ∈ script.statements, slot.node.Placed source script

theorem Script.placed_empty (source : String) : Script.empty.Placed source := by
  constructor
  · intro expression member
    simp [Script.empty] at member
  · intro slot member
    simp [Script.empty] at member

theorem Script.Placed.pushExpression {source : String} {script : Script}
    (placed : script.Placed source) {node : Expression} (within : node.span.Within source) :
    (script.pushExpression node).2.Placed source where
  expressions expression member := by
    rcases Array.mem_push.mp member with old | rfl
    · exact placed.expressions expression old
    · exact within
  statements slot member :=
    (placed.statements slot member).grow (script.extends_pushExpression node).expressions

theorem Script.Placed.pushStatement {source : String} {script : Script}
    (placed : script.Placed source) {node : Statement} (own : node.Placed source script) :
    (script.pushStatement node).2.Placed source where
  expressions := placed.expressions
  statements slot member := by
    rcases Array.mem_push.mp member with old | rfl
    · exact (placed.statements slot old).grow (script.extends_pushStatement node).expressions
    · exact own.grow (script.extends_pushStatement node).expressions

theorem Script.Placed.link {source : String} {script : Script} (placed : script.Placed source)
    (sequence : List StatementRef) : (script.link sequence).Placed source := by
  have kept : script.KeepsExpressions (script.link sequence) := by
    intro index _
    rw [Script.link_expressions]
  refine ⟨fun expression member => placed.expressions expression ?_, fun slot member => ?_⟩
  · rwa [Script.link_expressions] at member
  · obtain ⟨index, found⟩ := Array.getElem?_of_mem member
    have same := script.statement?_link sequence ⟨index⟩
    unfold Script.statement? at same
    rw [found] at same
    obtain ⟨old, present, node⟩ := Option.map_eq_some_iff.mp same.symm
    exact node ▸ (placed.statements old (Array.mem_of_getElem? present)).grow kept

/-- What is left to read stands in the source, and so does what has been built. -/
structure Cursor.Placed (source : String) (cursor : Cursor) : Prop where
  tokens : ∀ token, .ok token ∈ cursor.items → token.From source
  script : cursor.script.Placed source

theorem LexicalItem.Tiled.within {nesting offset : Nat} {characters : List Char}
    {items : List LexicalItem} (tiled : LexicalItem.Tiled nesting offset characters items)
    {source : String} (inside : offset + utf8Length characters ≤ source.utf8ByteSize) :
    ∀ item ∈ items, item.span.Within source := by
  induction tiled with
  | ends skipped => exact List.forall_mem_singleton.mpr (.between (Nat.le_refl _) inside)
  | @item nesting offset gap lexeme rest first items skipped taken named placed more ih =>
      simp only [utf8Length_append] at inside
      refine List.forall_mem_cons.mpr ⟨?_, ih (by omega)⟩
      rw [placed]
      exact .between (Nat.le_add_right _ _) (by omega)

theorem Cursor.placed_ofSource (source : String) : (Cursor.ofSource source).Placed source where
  tokens token member := by
    have size : utf8Length source.toList = source.utf8ByteSize := by
      rw [← LexicalItem.utf8ByteSize_ofList, String.ofList_toList]
    have tiled := LexicalItem.scanFrom_tiled 0 0 source.toList
    exact ⟨tiled.within (by omega) _ member, fun _ => member⟩
  script := Script.placed_empty source

namespace Parse

/-!
## Reading tokens
-/

/-- The production takes tokens and adds nothing, and what it gives has a property. -/
def Takes {α : Type} (source : String) (production : Parse α) (given : α → Prop) : Prop :=
  ∀ cursor after result, production cursor = .ok (result, after) → cursor.Placed source →
    after.script = cursor.script ∧ after.Placed source ∧ given result

variable {α β : Type} {source : String}

theorem Takes.bind {first : Parse α} {following : α → Parse β} {held : α → Prop}
    {given : β → Prop} (taken : Takes source first held)
    (follows : ∀ value, held value → Takes source (following value) given) :
    Takes source (first >>= following) given := by
  intro cursor after result parsed placed
  obtain ⟨value, middle, firstOk, followingOk⟩ := bind_ok parsed
  obtain ⟨early, middlePlaced, holds⟩ := taken _ _ _ firstOk placed
  obtain ⟨late, afterPlaced, gives⟩ := follows value holds _ _ _ followingOk middlePlaced
  exact ⟨late.trans early, afterPlaced, gives⟩

theorem takes_pure {value : α} {given : α → Prop} (gives : given value) :
    Takes source (pure value) given := by
  intro cursor after result parsed placed
  cases parsed
  exact ⟨rfl, placed, gives⟩

theorem takes_refuse (cause : ParseCause) (span : Span) (given : α → Prop) :
    Takes source (refuse cause span) given := by
  intro cursor after result parsed
  cases parsed

theorem takes_peek : Takes source peek (Token.From source) := by
  intro cursor after token parsed placed
  unfold peek at parsed
  split at parsed
  · cases parsed
    have within : (Span.between 0 0).Within source := .between (Nat.le_refl 0) (Nat.zero_le _)
    exact ⟨rfl, placed, within, fun inner => (inner rfl).elim⟩
  · next items =>
      cases parsed
      exact ⟨rfl, placed, placed.tokens token (items ▸ List.mem_cons_self)⟩
  · cases parsed

theorem takes_skip : Takes source skip fun _ => True := by
  intro cursor after _ parsed placed
  unfold skip at parsed
  split at parsed
  · next dropped following rest items =>
      cases parsed
      exact ⟨rfl, ⟨fun token member => placed.tokens token
        (items ▸ List.mem_cons_of_mem dropped member), placed.script⟩, trivial⟩
  · cases parsed
    exact ⟨rfl, placed, trivial⟩

theorem takes_next : Takes source next (Token.From source) := by
  intro cursor after token parsed
  unfold next at parsed
  split at parsed
  · cases parsed
  · exact (takes_peek.bind fun _ read => takes_skip.bind fun _ _ => takes_pure read)
      cursor after token parsed

theorem takes_expect (kind : TokenKind) :
    Takes source (expect kind) fun token => token.From source ∧ token.kind = kind := by
  refine takes_next.bind fun token read => ?_
  split
  · next same => exact takes_pure ⟨read, same⟩
  · exact takes_refuse _ _ _

theorem takes_accept? (kind : TokenKind) :
    Takes source (accept? kind) fun answer => ∀ token ∈ answer, token.From source := by
  refine takes_peek.bind fun token read => ?_
  split
  · refine takes_skip.bind fun _ _ => takes_pure ?_
    rintro _ ⟨⟩
    exact read
  · exact takes_pure fun _ member => nomatch member

theorem takes_accept (kind : TokenKind) : Takes source (accept kind) fun _ => True := by
  unfold accept
  rw [map_eq_pure_bind]
  exact (takes_accept? kind).bind fun _ _ => takes_pure trivial

theorem takes_skipKinds (kinds : List TokenKind) :
    Takes source (skipKinds kinds) fun _ => True := by
  intro cursor after _ parsed placed
  cases parsed
  have dropped := (dropKinds_suffix kinds cursor.items).subset
  exact ⟨rfl, ⟨fun token member => placed.tokens token (dropped member), placed.script⟩, trivial⟩

theorem takes_name : Takes source name fun named => named.2.Within source :=
  (takes_expect _).bind fun _ read => takes_pure read.1.within

theorem takes_atTerminator : Takes source atTerminator fun _ => True :=
  takes_peek.bind fun _ _ => takes_pure trivial

theorem takes_terminator : Takes source terminator fun _ => True := by
  refine takes_peek.bind fun token _ => ?_
  split
  · exact takes_skip
  · exact takes_skip
  · exact takes_pure trivial
  · exact takes_refuse _ _ _

theorem takes_closeCompound (severalLines : Bool) :
    Takes source (closeCompound severalLines) fun _ => True := by
  unfold closeCompound
  split
  · exact (takes_expect _).bind fun _ _ => takes_terminator
  · exact takes_pure trivial

theorem takes_parameters (bound : Nat) : Takes source (parameters bound) fun _ => True := by
  induction bound with
  | zero =>
      intro cursor after result parsed
      cases parsed
  | succ bound ih =>
      refine (takes_accept _).bind fun closed _ => ?_
      split
      · exact takes_pure trivial
      · refine takes_name.bind fun parameter _ => (takes_accept _).bind fun more _ => ?_
        split
        · exact ih.bind fun _ _ => takes_pure trivial
        · exact (takes_expect _).bind fun _ _ => takes_pure trivial

/-!
## Adding nodes
-/

/-- The production keeps all nodes placed and all expressions where they are. What it gives
has a property, if the script had one before. -/
def Places {α : Type} (source : String) (before : Script → Prop) (production : Parse α)
    (given : Script → α → Prop) : Prop :=
  ∀ cursor after result, production cursor = .ok (result, after) → cursor.Placed source →
    before cursor.script → after.Placed source ∧ cursor.script.KeepsExpressions after.script ∧
      given after.script result

variable {before : Script → Prop} {given : Script → β → Prop}

theorem Takes.then {first : Parse α} {following : α → Parse β} {held : α → Prop}
    (taken : Takes source first held)
    (follows : ∀ value, held value → Places source before (following value) given) :
    Places source before (first >>= following) given := by
  intro cursor after result parsed placed holds
  obtain ⟨value, middle, firstOk, followingOk⟩ := bind_ok parsed
  obtain ⟨same, middlePlaced, valueHolds⟩ := taken _ _ _ firstOk placed
  have placed := follows value valueHolds _ _ _ followingOk middlePlaced (same ▸ holds)
  exact ⟨placed.1, same ▸ placed.2.1, placed.2.2⟩

theorem Places.bind {first : Parse α} {following : α → Parse β} {held : Script → α → Prop}
    (places : Places source before first held)
    (follows : ∀ value, Places source (fun script => held script value) (following value) given) :
    Places source before (first >>= following) given := by
  intro cursor after result parsed placed holds
  obtain ⟨value, middle, firstOk, followingOk⟩ := bind_ok parsed
  obtain ⟨middlePlaced, early, valueHolds⟩ := places _ _ _ firstOk placed holds
  obtain ⟨afterPlaced, late, gives⟩ := follows value _ _ _ followingOk middlePlaced valueHolds
  refine ⟨afterPlaced, fun index present => ?_, gives⟩
  exact (late index (Nat.lt_of_lt_of_le present early.le)).trans (early index present)

/-- What does not depend on the script may be used beforehand. -/
theorem Places.of_fact {production : Parse β} {fact : Prop}
    (known : ∀ script, before script → fact)
    (places : fact → Places source before production given) :
    Places source before production given :=
  fun cursor after result parsed placed holds =>
    places (known _ holds) cursor after result parsed placed holds

theorem Places.weaken {production : Parse β} (places : Places source (fun _ => True) production given) :
    Places source before production given :=
  fun cursor after result parsed placed _ => places cursor after result parsed placed trivial

/-- What stays true as expressions are added is still true behind the production. -/
theorem Places.carry {production : Parse β} {kept : Script → Prop}
    (grow : ∀ old new : Script, old.KeepsExpressions new → kept old → kept new)
    (places : Places source (fun _ => True) production given) :
    Places source kept production fun script result => kept script ∧ given script result := by
  intro cursor after result parsed placed holds
  obtain ⟨afterPlaced, grown, gives⟩ := places _ _ _ parsed placed trivial
  exact ⟨afterPlaced, grown, grow _ _ grown holds, gives⟩

theorem places_pure {value : β} (gives : ∀ script, before script → given script value) :
    Places source before (pure value) given := by
  intro cursor after result parsed placed holds
  cases parsed
  exact ⟨placed, fun _ _ => rfl, gives _ holds⟩

theorem places_refuse (cause : ParseCause) (span : Span) :
    Places source before (refuse cause span : Parse β) given := by
  intro cursor after result parsed
  cases parsed

theorem places_exhausted : Places source before (exhausted : Parse β) given := by
  intro cursor after result parsed
  cases parsed

theorem places_pushExpression {node : Expression} (within : node.span.Within source) :
    Places source before (pushExpression node)
      fun script reference => script.expression? reference = some node := by
  intro cursor after reference parsed placed _
  cases parsed
  exact ⟨⟨placed.tokens, placed.script.pushExpression within⟩,
    (cursor.script.extends_pushExpression node).expressions,
    cursor.script.expression?_pushExpression node⟩

/-- A production of statements, which keeps all nodes placed. -/
abbrev Settles (source : String) (production : Parse β) : Prop :=
  Places source (fun _ => True) production fun _ _ => True

theorem settles_pushStatement {node : Statement}
    (own : ∀ script, before script → node.Placed source script) :
    Places source before (pushStatement node) fun _ _ => True := by
  intro cursor after this parsed placed holds
  cases parsed
  exact ⟨⟨placed.tokens, placed.script.pushStatement (own _ holds)⟩,
    (cursor.script.extends_pushStatement node).expressions, trivial⟩

theorem settles_link (sequence : List StatementRef) : Settles source (link sequence) := by
  intro cursor after head parsed placed _
  cases parsed
  refine ⟨⟨placed.tokens, placed.script.link sequence⟩, fun index _ => ?_, trivial⟩
  rw [Script.link_expressions]

/-!
## Expressions
-/

/-- What is pushed and given as an expression. -/
private theorem places_given {node : Expression} (within : node.span.Within source)
    (target : Option AssignTarget) :
    Places source before (do
      let reference ← pushExpression node
      return (⟨reference, node.span, target⟩ : ParsedExpression))
      (ParsedExpression.Placed source) :=
  (places_pushExpression within).bind fun _ => places_pure fun _ found => ⟨within, .node found⟩

theorem MiddleOperator.span_node (operator : MiddleOperator) (left right : ExpressionRef)
    (span : Span) : (operator.node left right span).span = span := by
  cases operator <;> rfl

/-- The productions for expressions give expressions that are placed. -/
structure PlacesExpressions (source : String) (bound : Nat) : Prop where
  operand : Places source (fun _ => True) (operand bound) (ParsedExpression.Placed source)
  unary : ∀ operator start, start.Within source →
    Places source (fun _ => True) (unary bound operator start) (ParsedExpression.Placed source)
  listUntil : ∀ closing, Places source (fun _ => True) (listUntil bound closing)
    fun _ list => list.2.span.Within source
  suffixOf : ∀ left : ParsedExpression, left.span.Within source →
    Places source (fun _ => True) (suffixOf bound left) (ParsedExpression.Placed source)
  expressionFrom : ∀ power,
    Places source (fun _ => True) (expressionFrom bound power) (ParsedExpression.Placed source)
  continued : ∀ power (left : ParsedExpression),
    Places source (fun script => left.Placed source script) (continued bound power left)
      (ParsedExpression.Placed source)

private theorem places_operand {bound : Nat} (ih : PlacesExpressions source bound) :
    Places source (fun _ => True) (operand (bound + 1)) (ParsedExpression.Placed source) := by
  refine takes_next.then fun token read => ?_
  generalize kindIs : token.kind = kind
  split
  · exact places_refuse _ _
  iterate 5 exact places_given read.within _
  · exact places_given read.within _
  · exact ih.unary _ _ read.within
  · exact ih.unary _ _ read.within
  · have opens := read.scanned (by rw [kindIs]; decide)
    refine (ih.expressionFrom 0).bind fun inner => (takes_expect _).then fun close closed => ?_
    refine places_pure fun script placed => ⟨.merge read.within closed.1.within, ?_⟩
    exact .parenthesised placed.covers opens kindIs
      (closed.1.scanned (by rw [closed.2]; decide)) closed.2
  · exact (ih.listUntil _).bind fun list =>
      Places.of_fact (fun _ => id) fun closed => places_given (.merge read.within closed) _
  · exact places_refuse _ _

private theorem places_listUntil {bound : Nat} (ih : PlacesExpressions source bound)
    (closing : TokenKind) :
    Places source (fun _ => True) (listUntil (bound + 1) closing)
      fun _ list => list.2.span.Within source := by
  refine (takes_accept? closing).then fun closed read => ?_
  split
  · next close => exact places_pure fun _ _ => (read close rfl).within
  · refine (ih.expressionFrom 0).bind fun item => (takes_accept _).then fun more _ => ?_
    split
    · exact (ih.listUntil closing).weaken.bind fun rest => places_pure fun _ within => within
    · exact (takes_expect _).then fun close closed => places_pure fun _ _ => closed.1.within

private theorem places_suffixOf {bound : Nat} (ih : PlacesExpressions source bound)
    (left : ParsedExpression) (within : left.span.Within source) :
    Places source (fun _ => True) (suffixOf (bound + 1) left)
      (ParsedExpression.Placed source) := by
  refine takes_next.then fun token read => ?_
  split
  · exact (ih.listUntil _).bind fun list =>
      Places.of_fact (fun _ => id) fun closed => places_given (.merge within closed) _
  · exact (ih.expressionFrom 0).bind fun index => (takes_expect _).then fun close closed =>
      places_given (.merge within closed.1.within) _
  · exact takes_name.then fun member named => (places_pushExpression named).bind fun node =>
      places_given (.merge within named) _

private theorem places_continued {bound : Nat} (ih : PlacesExpressions source bound)
    (power : Nat) (left : ParsedExpression) :
    Places source (fun script => left.Placed source script) (continued (bound + 1) power left)
      (ParsedExpression.Placed source) := by
  refine Places.of_fact (fun _ placed => placed.within) fun within => ?_
  refine takes_peek.then fun token _ => ?_
  split
  iterate 3
    split
    · exact places_pure fun _ placed => placed
    · exact (ih.suffixOf left within).weaken.bind fun extended => ih.continued power extended
  · split
    · exact places_pure fun _ placed => placed
    · next operator _ =>
        split
        · exact places_pure fun _ placed => placed
        · refine takes_skip.then fun _ _ => (ih.expressionFrom _).weaken.bind fun right => ?_
          refine Places.of_fact (fun _ placed => placed.within) fun rightWithin => ?_
          have merged := Span.Within.merge within rightWithin
          have spanned := MiddleOperator.span_node operator left.node right.node
            (left.span.merge right.span)
          refine (places_pushExpression (by rwa [spanned])).bind fun node => ?_
          intro cursor after result parsed placed found
          refine ih.continued power _ _ _ _ parsed placed ⟨merged, ?_⟩
          have covers : Covers source cursor.script node _ := .node found
          rwa [spanned] at covers

theorem placesExpressions (source : String) (bound : Nat) : PlacesExpressions source bound := by
  induction bound with
  | zero => constructor <;> intros <;> exact places_exhausted
  | succ bound ih =>
      exact {
        operand := places_operand ih
        unary := fun operator start within => (ih.expressionFrom _).bind fun inner =>
          Places.of_fact (fun _ placed => placed.within) fun innerWithin =>
            places_given (.merge within innerWithin) _
        listUntil := places_listUntil ih
        suffixOf := places_suffixOf ih
        expressionFrom := fun power => ih.operand.bind fun left => ih.continued power left
        continued := places_continued ih }

theorem places_expression (bound : Nat) :
    Places source before (expression bound) (ParsedExpression.Placed source) :=
  ((placesExpressions source bound).expressionFrom 0).weaken

/-!
## Statements
-/

/-- A statement without a place of its own. -/
private theorem settles_unplaced {node : Statement} (unplaced : node.span? = none) :
    Places source before (pushStatement node) fun _ _ => True := by
  refine settles_pushStatement fun script _ => ⟨fun span same => ?_, ?_⟩
  · rw [unplaced] at same
    cases same
  · rintro item iterable body span rfl
    cases unplaced

/-- A statement with a place that is no loop over a value. -/
private theorem settles_placed {node : Statement} {span : Span} (spanned : node.span? = some span)
    (within : span.Within source)
    (other : ∀ item iterable body span, node ≠ .forLoop item iterable body span) :
    Places source before (pushStatement node) fun _ _ => True := by
  refine settles_pushStatement fun script _ => .of_within (fun given same => ?_) other
  rw [spanned] at same
  cases same
  exact within

private theorem settles_printedRest (bound : Nat) : Settles source (printedRest bound) := by
  induction bound with
  | zero => exact places_exhausted
  | succ bound ih =>
      refine (takes_accept _).then fun more _ => ?_
      split
      · exact (places_expression bound).bind fun value => ih.weaken.bind fun rest =>
          places_pure fun _ _ => trivial
      · exact places_pure fun _ _ => trivial

private theorem settles_assignmentOrExpression (bound : Nat) :
    Settles source (assignmentOrExpression bound) := by
  refine (places_expression bound).bind fun left =>
    Places.of_fact (fun _ placed => placed.within) fun leftWithin => takes_peek.then fun token _ => ?_
  split
  · exact settles_unplaced rfl
  · refine takes_skip.then fun _ _ => ?_
    split
    · exact places_refuse _ _
    · exact (places_expression bound).bind fun value =>
        Places.of_fact (fun _ placed => placed.within) fun valueWithin =>
          settles_placed rfl (.merge leftWithin valueWithin) (by simp)

private theorem settles_simpleStatement (bound : Nat) : Settles source (simpleStatement bound) := by
  refine takes_peek.then fun token read => ?_
  split
  · refine takes_skip.then fun _ _ => takes_atTerminator.then fun ended _ => ?_
    split
    · exact settles_unplaced rfl
    · exact (places_expression bound).bind fun value =>
        (settles_printedRest bound).weaken.bind fun rest => settles_unplaced rfl
  · exact takes_skip.then fun _ _ => settles_unplaced rfl
  · exact takes_skip.then fun _ _ => settles_placed rfl read.within (by simp)
  · refine takes_skip.then fun _ _ => (takes_accept? _).then fun number? numberRead => ?_
    split
    · exact settles_placed rfl read.within (by simp)
    · next number =>
        split
        · exact places_refuse _ _
        · exact settles_placed rfl (.merge read.within (numberRead number rfl).within) (by simp)
  · refine takes_skip.then fun _ _ => takes_atTerminator.then fun ended _ => ?_
    split
    · exact settles_unplaced rfl
    · exact (places_expression bound).bind fun value => settles_unplaced rfl
  · exact takes_skip.then fun _ _ => takes_name.then fun deleted within =>
      settles_placed rfl (.merge read.within within) (by simp)
  · exact settles_assignmentOrExpression bound

/-- The productions for statements keep all nodes placed. -/
structure SettlesStatements (source : String) (bound : Nat) : Prop where
  sequence : ∀ ends, Settles source (sequence bound ends)
  statement : Settles source (statement bound)
  block : Settles source (block bound)
  furtherBranches : ∀ severalLines, Settles source (furtherBranches bound severalLines)
  recordBody : Settles source (recordBody bound)

private theorem settles_sequence {bound : Nat} (ih : SettlesStatements source bound)
    (ends : List TokenKind) : Settles source (sequence (bound + 1) ends) := by
  refine (takes_skipKinds _).then fun _ _ => takes_peek.then fun token _ => ?_
  split
  · exact places_pure fun _ _ => trivial
  · split
    · exact places_refuse _ _
    · exact ih.statement.bind fun first => (ih.sequence ends).bind fun rest =>
        places_pure fun _ _ => trivial

private theorem settles_statement {bound : Nat} (ih : SettlesStatements source bound) :
    Settles source (statement (bound + 1)) := by
  refine takes_peek.then fun token read => ?_
  generalize kindIs : token.kind = kind
  split
  · exact takes_skip.then fun _ _ => (places_expression bound).bind fun condition =>
      ih.block.weaken.bind fun body => (ih.furtherBranches _).bind fun branches =>
        settles_unplaced rfl
  · exact takes_skip.then fun _ _ => (places_expression bound).bind fun condition =>
      ih.block.weaken.bind fun body => (takes_closeCompound _).then fun _ _ =>
        settles_unplaced rfl
  · refine takes_skip.then fun _ _ => takes_name.then fun item _ =>
      (takes_expect _).then fun _ _ => (places_expression bound).bind fun iterable => ?_
    refine Places.of_fact (fun _ placed => placed.within) fun within => ?_
    -- The body only adds expressions, so the loop still covers the one it goes through.
    have scanned := read.scanned (by rw [kindIs]; decide)
    have grow (old new : Script) (grown : old.KeepsExpressions new)
        (placed : iterable.Placed source old) : iterable.Placed source new :=
      ⟨placed.within, placed.covers.grow grown⟩
    refine (Places.carry grow ih.block).bind fun body => (takes_closeCompound _).then fun _ _ => ?_
    refine settles_pushStatement fun script carried => ⟨?_, ?_⟩
    · rintro _ ⟨⟩
      exact .merge read.within within
    · rintro _ _ _ _ ⟨⟩
      exact ⟨token, iterable.span, scanned, kindIs, carried.1.covers, rfl⟩
  · exact takes_skip.then fun _ _ => takes_name.then fun function _ =>
      (takes_expect _).then fun _ _ => (takes_parameters _).then fun names _ =>
        ih.block.bind fun body => (takes_closeCompound _).then fun _ _ => settles_unplaced rfl
  · exact takes_skip.then fun _ _ => takes_name.then fun record within =>
      ih.recordBody.bind fun body =>
        settles_placed rfl (.merge read.within within) (by simp)
  · exact (settles_simpleStatement bound).bind fun simple =>
      takes_terminator.then fun _ _ => places_pure fun _ _ => trivial

private theorem settles_block {bound : Nat} (ih : SettlesStatements source bound) :
    Settles source (block (bound + 1)) := by
  refine (takes_accept _).then fun colon _ => ?_
  split
  · exact (settles_simpleStatement bound).bind fun simple =>
      takes_terminator.then fun _ _ => places_pure fun _ _ => trivial
  · refine takes_next.then fun token _ => ?_
    split
    · exact (ih.sequence _).bind fun statements => (settles_link _).bind fun first =>
        places_pure fun _ _ => trivial
    · exact places_refuse _ _
    · exact places_refuse _ _

private theorem settles_furtherBranches {bound : Nat} (ih : SettlesStatements source bound)
    (severalLines : Bool) : Settles source (furtherBranches (bound + 1) severalLines) := by
  refine (takes_skipKinds _).then fun _ _ => (takes_accept _).then fun tested _ => ?_
  split
  · exact (places_expression bound).bind fun condition => ih.block.weaken.bind fun body =>
      (ih.furtherBranches _).bind fun branches => places_pure fun _ _ => trivial
  · refine (takes_accept _).then fun otherwise _ => ?_
    split
    · exact ih.block.bind fun body => (takes_closeCompound _).then fun _ _ =>
        places_pure fun _ _ => trivial
    · exact (takes_closeCompound _).then fun _ _ => places_pure fun _ _ => trivial

private theorem settles_recordBody {bound : Nat} (ih : SettlesStatements source bound) :
    Settles source (recordBody (bound + 1)) := by
  refine takes_peek.then fun token _ => ?_
  split
  · exact takes_terminator.then fun _ _ => places_pure fun _ _ => trivial
  · exact takes_terminator.then fun _ _ => places_pure fun _ _ => trivial
  · exact ih.block.bind fun body => (takes_closeCompound _).then fun _ _ =>
      places_pure fun _ _ => trivial

theorem settlesStatements (source : String) (bound : Nat) : SettlesStatements source bound := by
  induction bound with
  | zero => constructor <;> intros <;> exact places_exhausted
  | succ bound ih =>
      exact ⟨settles_sequence ih, settles_statement ih, settles_block ih,
        settles_furtherBranches ih, settles_recordBody ih⟩

theorem program_placed {bound : Nat} {cursor after : Cursor} {script : Script}
    (parsed : program bound cursor = .ok (script, after)) (placed : cursor.Placed source) :
    script.Placed source := by
  simp only [program] at parsed
  obtain ⟨row, first, rowParsed, parsed⟩ := bind_ok parsed
  obtain ⟨token, second, tokenRead, parsed⟩ := bind_ok parsed
  obtain ⟨head, third, linked, parsed⟩ := bind_ok parsed
  have read := ((settlesStatements source bound).sequence _ _ _ _ rowParsed placed trivial).1
  have ended := (takes_expect _ _ _ _ tokenRead read).2.1
  have joined := (settles_link _ _ _ _ linked ended trivial).1.script
  cases parsed
  have kept : third.script.KeepsExpressions { third.script with first := head } := fun _ _ => rfl
  exact ⟨joined.expressions, fun slot member => (joined.statements slot member).grow kept⟩

end Parse

/-!
## Scripts
-/

/-- What a parser may have done to a cursor over this source before it reads a script. -/
inductive Cursor.ReachedIn (source : String) : Cursor → Prop where
  | start : Cursor.ReachedIn source (Cursor.ofSource source)
  | expression {cursor after : Cursor} {node : ExpressionRef}
      (reached : Cursor.ReachedIn source cursor)
      (taken : cursor.takeExpression = .ok (node, after)) : Cursor.ReachedIn source after

/-- The script comes out of a parser that reads this source. -/
inductive Script.ReadFrom (source : String) : Script → Prop where
  | building {cursor : Cursor} (reached : Cursor.ReachedIn source cursor) :
      Script.ReadFrom source cursor.script
  | finished {cursor : Cursor} {script : Script} (reached : Cursor.ReachedIn source cursor)
      (finished : cursor.finish = .ok script) : Script.ReadFrom source script

theorem Script.readFrom_ofSource {source : String} {script : Script}
    (accepted : Script.ofSource source = .ok script) : script.ReadFrom source :=
  .finished .start accepted

theorem Cursor.Reached.reachedIn {cursor : Cursor} (reached : cursor.Reached) :
    ∃ source, cursor.ReachedIn source := by
  induction reached with
  | source source => exact ⟨source, .start⟩
  | expression _ taken ih =>
      obtain ⟨source, reached⟩ := ih
      exact ⟨source, reached.expression taken⟩

theorem Script.Parsed.source {script : Script} (parsed : script.Parsed) :
    ∃ source, script.ReadFrom source := by
  cases parsed with
  | building reached =>
      obtain ⟨source, reached⟩ := reached.reachedIn
      exact ⟨source, .building reached⟩
  | finished reached finished =>
      obtain ⟨source, reached⟩ := reached.reachedIn
      exact ⟨source, .finished reached finished⟩

theorem Cursor.ReachedIn.placed {source : String} {cursor : Cursor}
    (reached : Cursor.ReachedIn source cursor) : cursor.Placed source := by
  induction reached with
  | start => exact Cursor.placed_ofSource source
  | @expression cursor after node _ taken ih =>
      obtain ⟨result, _, parsed⟩ := takeExpression_ok taken
      exact ((Parse.placesExpressions source _).expressionFrom 0 _ _ _ parsed ih trivial).1

/-- All nodes of a script that the parser has built are placed in its source. -/
theorem Script.ReadFrom.placed {source : String} {script : Script}
    (read : script.ReadFrom source) : script.Placed source := by
  cases read with
  | building reached => exact reached.placed.script
  | @finished cursor script reached finished =>
      obtain ⟨last, parsed⟩ := Cursor.finish_ok finished
      exact Parse.program_placed parsed reached.placed

end ScriptEngine
