import ScriptEngine.Proofs.Grammar.Growth

/-!
# Every slot of a script that is laid out

A block that fills a stretch of slots puts a statement with all that is below it
into each of them. So in a script that the parser gives, the expressions that any
statement evaluates are present and spell trees.
-/

set_option autoImplicit false

namespace ScriptEngine

/-- A statement stands at the slot with all that is below it, and what follows it
in its sequence stands before the bound. -/
def SlotLaid (script : Script) (index stop : Nat) : Prop :=
  (∃ (tree : StatementTree) (start : Nat), tree.Laid script start ⟨index⟩) ∧
    ∀ following, script.next ⟨index⟩ = some following → following.index < stop

theorem SlotLaid.mono {script : Script} {index stop larger : Nat}
    (laid : SlotLaid script index stop) (le : stop ≤ larger) : SlotLaid script index larger :=
  ⟨laid.1, fun following next => Nat.lt_of_lt_of_le (laid.2 following next) le⟩

theorem BlockLaid.head_lt {script : Script} {block : List StatementTree} {first : StatementRef}
    {start stop : Nat} (laid : BlockLaid script block (some first) start stop) :
    first.index < stop := by
  cases block with
  | nil => cases laid.1
  | cons tree rest =>
      obtain ⟨this, same, treeLaid, restLaid⟩ := laid
      cases same
      exact BlockLaid.le rest restLaid

mutual

theorem StatementTree.Laid.covers {script : Script} (tree : StatementTree) {start : Nat}
    {this : StatementRef} (laid : tree.Laid script start this) {index : Nat}
    (lower : start ≤ index) (upper : index < this.index) : SlotLaid script index this.index := by
  cases tree with
  | expression expression =>
      obtain ⟨_, _, _, own⟩ := laid
      omega
  | print values =>
      obtain ⟨_, _, _, own⟩ := laid
      omega
  | assignName name operator value span =>
      obtain ⟨_, _, _, own⟩ := laid
      omega
  | assignMember object name operator value span =>
      obtain ⟨_, _, _, _, _, own⟩ := laid
      omega
  | assignElement object position operator value span =>
      obtain ⟨_, _, _, _, _, _, _, own⟩ := laid
      omega
  | branch branches =>
      obtain ⟨_, _, _, branchesLaid⟩ := laid
      exact branchesLaid.covers branches lower upper
  | whileLoop condition body | forLoop item iterable body span =>
      obtain ⟨_, _, _, _, bodyLaid⟩ := laid
      exact BlockLaid.covers body bodyLaid lower upper
  | breakLoops count span | continueLoop span | pass | delete name span =>
      obtain ⟨_, own⟩ := laid
      omega
  | returnValue value =>
      cases value with
      | none =>
          obtain ⟨_, own⟩ := laid
          omega
      | some value =>
          obtain ⟨_, _, _, own⟩ := laid
          omega
  | define name parameters entry body => exact BlockLaid.covers body laid.2 lower upper
  | record name body span =>
      obtain ⟨_, _, bodyLaid⟩ := laid
      exact BlockLaid.covers body bodyLaid lower upper

theorem BranchTree.Laid.covers {script : Script} (tree : BranchTree)
    {branches : List (ExpressionRef × Option StatementRef)}
    {otherwise : Option (Option StatementRef)} {start stop : Nat}
    (laid : tree.Laid script branches otherwise start stop) {index : Nat} (lower : start ≤ index)
    (upper : index < stop) : SlotLaid script index stop := by
  cases tree with
  | missing =>
      obtain ⟨_, _, empty⟩ := laid
      omega
  | otherwise body =>
      obtain ⟨_, _, _, bodyLaid⟩ := laid
      exact BlockLaid.covers body bodyLaid lower upper
  | test condition body rest =>
      obtain ⟨_, _, _, middle, _, _, bodyLaid, restLaid⟩ := laid
      rcases Nat.lt_or_ge index middle with early | late
      · exact (BlockLaid.covers body bodyLaid lower early).mono (restLaid.le rest)
      · exact restLaid.covers rest late upper

/-- Every slot that a block fills holds a statement with all that is below it. -/
theorem BlockLaid.covers {script : Script} (block : List StatementTree)
    {head : Option StatementRef} {start stop : Nat} (laid : BlockLaid script block head start stop)
    {index : Nat} (lower : start ≤ index) (upper : index < stop) :
    SlotLaid script index stop := by
  cases block with
  | nil =>
      obtain ⟨_, empty⟩ := laid
      omega
  | cons tree rest =>
      obtain ⟨this, _, treeLaid, restLaid⟩ := laid
      have restLe := BlockLaid.le rest restLaid
      rcases Nat.lt_trichotomy index this.index with before | rfl | behind
      · exact (treeLaid.covers tree lower before).mono (by omega)
      · refine ⟨⟨tree, start, treeLaid⟩, fun following next => ?_⟩
        rw [next] at restLaid
        exact restLaid.head_lt
      · exact BlockLaid.covers rest restLaid behind upper

end

/-- Every slot holds a statement with all that is below it. -/
def Script.Filled (script : Script) : Prop :=
  ∀ this : StatementRef, this.index < script.statements.size →
    SlotLaid script this.index script.statements.size

theorem Script.Whole.filled {script : Script} (whole : script.Whole) : script.Filled := by
  intro this present
  obtain ⟨tree, laid⟩ := whole.laid
  exact BlockLaid.covers tree laid (Nat.zero_le _) present

theorem Script.Parsed.filled {script : Script} (parsed : script.Parsed) : script.Filled := by
  cases parsed with
  | building reached =>
      intro this present
      rw [reached.unused.1] at present
      exact (Nat.not_lt_zero _ present).elim
  | finished reached finished => exact (reached.finish_whole finished).filled

theorem Script.Filled.of_statement? {script : Script} (filled : script.Filled)
    {this : StatementRef} {statement : Statement}
    (found : script.statement? this = some statement) :
    this.index < script.statements.size ∧ SlotLaid script this.index script.statements.size := by
  obtain ⟨slot, slotFound, _⟩ := Option.map_eq_some_iff.mp found
  have present := (Array.getElem?_eq_some_iff.mp slotFound).choose
  exact ⟨present, filled this present⟩

/-!
## Expressions of statements
-/

/-- The expressions that a statement evaluates are present. -/
def Statement.Rooted (script : Script) : Statement → Prop
  | .expression node => node.index < script.expressions.size
  | .print values => ∀ value ∈ values, value.index < script.expressions.size
  | .assign target _ value _ => target.Rooted script ∧ value.index < script.expressions.size
  | .branch branches _ => ∀ test ∈ branches, test.1.index < script.expressions.size
  | .whileLoop condition _ => condition.index < script.expressions.size
  | .forLoop _ iterable _ _ => iterable.index < script.expressions.size
  | .returnValue value => ∀ node, value = some node → node.index < script.expressions.size
  | _ => True

theorem BranchTree.Laid.present {script : Script} (tree : BranchTree)
    {branches : List (ExpressionRef × Option StatementRef)}
    {otherwise : Option (Option StatementRef)} {start stop : Nat}
    (laid : tree.Laid script branches otherwise start stop) :
    ∀ test ∈ branches, test.1.index < script.expressions.size := by
  match tree with
  | .missing =>
      obtain ⟨rfl, _⟩ := laid
      exact List.forall_mem_nil _
  | .otherwise body =>
      obtain ⟨_, rfl, _⟩ := laid
      exact List.forall_mem_nil _
  | .test condition body rest =>
      obtain ⟨_, _, _, _, rfl, conditionAt, _, restLaid⟩ := laid
      exact List.forall_mem_cons.mpr ⟨conditionAt.present, restLaid.present rest⟩

theorem StatementTree.Laid.rooted {script : Script} {tree : StatementTree} {start : Nat}
    {this : StatementRef} (laid : tree.Laid script start this) {statement : Statement}
    (found : script.statement? this = some statement) : statement.Rooted script := by
  cases tree with
  | expression expression =>
      obtain ⟨_, same, spelled, _⟩ := laid
      obtain rfl := Option.some.inj (found.symm.trans same)
      exact spelled.present
  | print values =>
      obtain ⟨_, same, spelled, _⟩ := laid
      obtain rfl := Option.some.inj (found.symm.trans same)
      exact fun value member => (spelled.mem member).1
  | assignName name operator value span =>
      obtain ⟨_, same, spelled, _⟩ := laid
      obtain rfl := Option.some.inj (found.symm.trans same)
      exact ⟨trivial, spelled.present⟩
  | assignMember object name operator value span =>
      obtain ⟨_, _, same, objectAt, valueAt, _⟩ := laid
      obtain rfl := Option.some.inj (found.symm.trans same)
      exact ⟨objectAt.present, valueAt.present⟩
  | assignElement object index operator value span =>
      obtain ⟨_, _, _, same, objectAt, indexAt, valueAt, _⟩ := laid
      obtain rfl := Option.some.inj (found.symm.trans same)
      exact ⟨⟨objectAt.present, indexAt.present⟩, valueAt.present⟩
  | branch branches =>
      obtain ⟨_, _, same, branchesLaid⟩ := laid
      obtain rfl := Option.some.inj (found.symm.trans same)
      exact branchesLaid.present branches
  | whileLoop condition body | forLoop item condition body span =>
      obtain ⟨_, _, same, conditionAt, _⟩ := laid
      obtain rfl := Option.some.inj (found.symm.trans same)
      exact conditionAt.present
  | breakLoops | continueLoop | pass | delete | define =>
      obtain rfl := Option.some.inj (found.symm.trans laid.1)
      trivial
  | returnValue value =>
      cases value with
      | none =>
          obtain rfl := Option.some.inj (found.symm.trans laid.1)
          rintro _ ⟨⟩
      | some value =>
          obtain ⟨_, same, spelled, _⟩ := laid
          obtain rfl := Option.some.inj (found.symm.trans same)
          rintro _ ⟨⟩
          exact spelled.present
  | record name body span =>
      obtain ⟨_, same, _⟩ := laid
      obtain rfl := Option.some.inj (found.symm.trans same)
      trivial

/-- Every node spells a tree, and the expressions that statements evaluate are
present. -/
structure Script.Rooted (script : Script) : Prop where
  planted : script.Planted
  statements : ∀ (this : StatementRef) (statement : Statement),
    script.statement? this = some statement → statement.Rooted script

theorem Script.Parsed.rooted {script : Script} (parsed : script.Parsed) : script.Rooted := by
  refine ⟨parsed.planted, fun this statement found => ?_⟩
  obtain ⟨_, ⟨tree, start, laid⟩, _⟩ := parsed.filled.of_statement? found
  exact laid.rooted found

/-!
## Links between statements
-/

/-- Where the bodies of a statement begin. -/
def Statement.heads : Statement → List (Option StatementRef)
  | .branch branches otherwise => branches.map Prod.snd ++ otherwise.toList
  | .whileLoop _ body => [body]
  | .forLoop _ _ body _ => [body]
  | .define _ _ body => [body]
  | .record _ body _ => [body]
  | _ => []

/-- What statements refer to is in the script. -/
structure Script.Linked (script : Script) : Prop where
  first : ∀ entry, script.first = some entry → entry.index < script.statements.size
  next : ∀ this following, script.next this = some following →
    following.index < script.statements.size
  heads : ∀ this statement, script.statement? this = some statement →
    ∀ entry, some entry ∈ statement.heads → entry.index < script.statements.size

private theorem BranchTree.Laid.head_lt {script : Script} (tree : BranchTree)
    {branches : List (ExpressionRef × Option StatementRef)}
    {otherwise : Option (Option StatementRef)} {start stop : Nat}
    (laid : tree.Laid script branches otherwise start stop) {entry : StatementRef}
    (member : some entry ∈ branches.map Prod.snd ++ otherwise.toList) : entry.index < stop := by
  match tree with
  | .missing =>
      obtain ⟨rfl, rfl, _⟩ := laid
      cases member
  | .otherwise body =>
      obtain ⟨_, rfl, rfl, bodyLaid⟩ := laid
      obtain rfl := List.mem_singleton.mp member
      exact bodyLaid.head_lt
  | .test condition body rest =>
      obtain ⟨_, head, more, middle, rfl, _, bodyLaid, restLaid⟩ := laid
      rw [List.map_cons, List.cons_append] at member
      rcases List.mem_cons.mp member with rfl | member
      · exact Nat.lt_of_lt_of_le bodyLaid.head_lt (restLaid.le rest)
      · exact restLaid.head_lt rest member

theorem StatementTree.Laid.head_lt {script : Script} {tree : StatementTree} {start : Nat}
    {this : StatementRef} (laid : tree.Laid script start this) {statement : Statement}
    (found : script.statement? this = some statement) {entry : StatementRef}
    (member : some entry ∈ statement.heads) : entry.index < this.index := by
  cases tree with
  | expression | print | assignName =>
      obtain ⟨_, same, _⟩ := laid
      obtain rfl := Option.some.inj (found.symm.trans same)
      cases member
  | assignMember =>
      obtain ⟨_, _, same, _⟩ := laid
      obtain rfl := Option.some.inj (found.symm.trans same)
      cases member
  | assignElement =>
      obtain ⟨_, _, _, same, _⟩ := laid
      obtain rfl := Option.some.inj (found.symm.trans same)
      cases member
  | branch branches =>
      obtain ⟨_, _, same, branchesLaid⟩ := laid
      obtain rfl := Option.some.inj (found.symm.trans same)
      exact branchesLaid.head_lt branches member
  | whileLoop condition body | forLoop item condition body span =>
      obtain ⟨_, _, same, _, bodyLaid⟩ := laid
      obtain rfl := Option.some.inj (found.symm.trans same)
      obtain rfl := List.mem_singleton.mp member
      exact bodyLaid.head_lt
  | breakLoops | continueLoop | pass | delete =>
      obtain rfl := Option.some.inj (found.symm.trans laid.1)
      cases member
  | returnValue value =>
      cases value with
      | none =>
          obtain rfl := Option.some.inj (found.symm.trans laid.1)
          cases member
      | some value =>
          obtain ⟨_, same, _⟩ := laid
          obtain rfl := Option.some.inj (found.symm.trans same)
          cases member
  | define name parameters entry body =>
      obtain rfl := Option.some.inj (found.symm.trans laid.1)
      obtain rfl := List.mem_singleton.mp member
      exact laid.2.head_lt
  | record name body span =>
      obtain ⟨_, same, bodyLaid⟩ := laid
      obtain rfl := Option.some.inj (found.symm.trans same)
      obtain rfl := List.mem_singleton.mp member
      exact bodyLaid.head_lt

theorem Script.Filled.linked {script : Script} (filled : script.Filled)
    (first : ∀ entry, script.first = some entry → entry.index < script.statements.size) :
    script.Linked where
  first := first
  next this following next := by
    obtain ⟨slot, slotFound, _⟩ := Option.bind_eq_some_iff.mp next
    exact (filled this (Array.getElem?_eq_some_iff.mp slotFound).choose).2 following next
  heads this statement found entry member := by
    obtain ⟨present, ⟨tree, start, laid⟩, _⟩ := filled.of_statement? found
    exact Nat.lt_trans (laid.head_lt found member) present

theorem Script.Parsed.linked {script : Script} (parsed : script.Parsed) : script.Linked := by
  refine parsed.filled.linked fun entry first => ?_
  cases parsed with
  | building reached =>
      rw [reached.unused.2] at first
      cases first
  | finished reached finished =>
      obtain ⟨tree, laid⟩ := (reached.finish_whole finished).laid
      rw [first] at laid
      exact laid.head_lt

end ScriptEngine
