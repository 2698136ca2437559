import ScriptEngine.Proofs.Control.Jumps
import ScriptEngine.Proofs.Control.Nesting
import ScriptEngine.Proofs.Script.Links

/-!
# The compounds around a statement

A statement stands in a body that has a context of its own (the script, the body of a
function, the block of a record), at the outermost level or inside of branches and loops of
this body. A script that the parser gives says for every statement which these are
(`Script.Enclosed.unique`). The frames of a context stand on them, and what a context does
with its frames is told by the script alone: behind which loop it goes on, and with which
statement.
-/

set_option autoImplicit false

namespace ScriptEngine

/-- The body of the statement begins here, and has a context of its own when it runs. -/
def Statement.Opens (head : Option StatementRef) : Statement → Prop
  | .define _ _ body => body = head
  | .record _ body _ => body = head
  | _ => False

/-- The bodies of the statement run in the context of the statement. -/
def Statement.Encloses : Statement → Prop
  | .branch _ _ | .whileLoop _ _ | .forLoop _ _ _ _ => True
  | _ => False

def Statement.isLoop : Statement → Bool
  | .whileLoop _ _ | .forLoop _ _ _ _ => true
  | _ => false

namespace Script

variable (script : Script)

/-- A sequence that has a context of its own begins here: that of the script itself, or the
body of a function or a record. -/
def Begins (head : Option StatementRef) : Prop :=
  head = script.first ∨
    ∃ this statement, script.statement? this = some statement ∧ statement.Opens head

/-- These are the branches and loops around a statement, the innermost first, up to the body
that has a context of its own. -/
inductive Enclosed : StatementRef → List StatementRef → Prop where
  | outermost {head : Option StatementRef} {this : StatementRef} (begins : script.Begins head)
      (chain : script.Chain head this) : Enclosed this []
  | inside {this compound : StatementRef} {statement : Statement} {head : Option StatementRef}
      {outer : List StatementRef} (found : script.statement? compound = some statement)
      (encloses : statement.Encloses) (member : head ∈ statement.heads)
      (chain : script.Chain head this) (around : Enclosed compound outer) :
      Enclosed this (compound :: outer)

def isLoop (this : StatementRef) : Bool :=
  (script.statement? this).any Statement.isLoop

def loops (path : List StatementRef) : Nat :=
  path.countP script.isLoop

/-- Where a context goes on that is done with a statement inside of these compounds: with the
statement that follows, or else behind the branch or with the loop that it is the end of. The
statements that it then stands on, the innermost first. -/
def after : List StatementRef → StatementRef → List StatementRef
  | [], this => (script.next this).toList
  | compound :: outer, this =>
      match script.next this with
      | some following => following :: compound :: outer
      | none => if script.isLoop compound then compound :: outer else after outer compound

end Script

theorem Script.isLoop_of_found {script : Script} {this : StatementRef} {statement : Statement}
    (found : script.statement? this = some statement) : script.isLoop this = statement.isLoop := by
  simp [Script.isLoop, found]

/-!
## One way to be enclosed
-/

/-- The edge leads to the first statement of a sequence. -/
def Edge.Begins : Edge → Prop
  | .of _ .next => False
  | _ => True

theorem Edge.Begins.body (compound : StatementRef) (position : Nat) :
    (Edge.of compound (.body position)).Begins :=
  trivial

namespace Script

variable {script : Script} (formed : script.WellFormed)

include formed

private theorem once {edge other : Edge} {this : StatementRef}
    (leads : script.target edge = some this) (otherLeads : script.target other = some this) :
    edge = other :=
  (formed.entered this (formed.targets edge this leads).1).unique leads otherLeads

/-- A statement is in one sequence only. -/
private theorem chain_unique {edge other : Edge} {this : StatementRef} (begins : edge.Begins)
    (otherBegins : other.Begins) (chain : script.Chain (script.target edge) this)
    (otherChain : script.Chain (script.target other) this) : edge = other := by
  generalize beginning : script.target edge = head at chain
  induction chain with
  | here leads =>
      cases otherChain with
      | here otherLeads => exact once formed (beginning.trans leads) otherLeads
      | @later before _ _ next =>
          have leadsNext : script.target (.of before .next) = some _ := next
          obtain rfl := once formed (beginning.trans leads) leadsNext
          exact begins.elim
  | @later before _ _ next ih =>
      have leadsNext : script.target (.of before .next) = some _ := next
      cases otherChain with
      | here otherLeads =>
          obtain rfl := once formed otherLeads leadsNext
          exact otherBegins.elim
      | @later otherBefore _ otherChain otherNext =>
          have otherLeadsNext : script.target (.of otherBefore .next) = some _ := otherNext
          obtain ⟨rfl, _⟩ := Edge.of.inj (once formed leadsNext otherLeadsNext)
          exact ih otherChain

omit formed in
/-- The edge to the first statement of a body. -/
private theorem body_edge {compound : StatementRef} {statement : Statement}
    {head : Option StatementRef} (found : script.statement? compound = some statement)
    (member : head ∈ statement.heads) :
    ∃ position, script.target (.of compound (.body position)) = head := by
  obtain ⟨position, inside, same⟩ := List.mem_iff_getElem.mp member
  refine ⟨position, ?_⟩
  simp only [target, linked, found, Option.bind_some]
  rw [List.getElem?_eq_getElem inside, same, Option.join_some]

omit formed in
/-- The edge to the first statement of a body with a context of its own is no edge into a
branch or a loop. -/
private theorem begins_edge {head : Option StatementRef} (begins : script.Begins head) :
    ∃ edge, script.target edge = head ∧ edge.Begins ∧
      ∀ compound position, edge = .of compound (.body position) →
        ∃ statement, script.statement? compound = some statement ∧ ¬statement.Encloses := by
  rcases begins with rfl | ⟨this, statement, found, opens⟩
  · refine ⟨.first, rfl, trivial, ?_⟩
    rintro compound position ⟨⟩
  · cases statement with
    | define name parameters body | record name body span =>
        obtain rfl := opens
        refine ⟨.of this (.body 0), ?_, trivial, ?_⟩
        · simp [target, linked, found, Statement.heads]
        · rintro compound position ⟨⟩
          exact ⟨_, found, id⟩
    | _ => exact opens.elim

/-- There is one way for a statement to be enclosed. -/
theorem Enclosed.unique {this : StatementRef} {path other : List StatementRef}
    (enclosed : script.Enclosed this path) (otherwise : script.Enclosed this other) :
    path = other := by
  have mixed {this compound : StatementRef} {statement : Statement}
      {begun head : Option StatementRef} (begins : script.Begins begun)
      (chain : script.Chain begun this) (found : script.statement? compound = some statement)
      (encloses : statement.Encloses) (member : head ∈ statement.heads)
      (bodyChain : script.Chain head this) : False := by
    obtain ⟨edge, rfl, first, opened⟩ := begins_edge begins
    obtain ⟨position, rfl⟩ := body_edge found member
    obtain rfl := chain_unique formed first (.body _ _) chain bodyChain
    obtain ⟨same, sameFound, apart⟩ := opened compound position rfl
    obtain rfl := Option.some.inj (found.symm.trans sameFound)
    exact apart encloses
  induction enclosed generalizing other with
  | outermost begins chain =>
      cases otherwise with
      | outermost => rfl
      | inside found encloses member bodyChain _ =>
          exact (mixed begins chain found encloses member bodyChain).elim
  | inside found encloses member bodyChain _ ih =>
      cases otherwise with
      | outermost begins chain =>
          exact (mixed begins chain found encloses member bodyChain).elim
      | inside otherFound otherEncloses otherMember otherChain around =>
          obtain ⟨position, rfl⟩ := body_edge found member
          obtain ⟨second, rfl⟩ := body_edge otherFound otherMember
          obtain ⟨rfl, _⟩ := Edge.of.inj
            (chain_unique formed (.body _ _) (.body _ _) bodyChain otherChain)
          rw [ih around]

end Script

/-!
## What frames stand on
-/

namespace Frame

variable {script : Script}

/-- The frames stand on these statements, the innermost first. -/
def Stand (frames : List Frame) (statements : List StatementRef) : Prop :=
  frames.map Frame.current = statements.map some

/-- The outermost frame is in a sequence that has a context of its own. -/
def Grounded (script : Script) (frames : List Frame) : Prop :=
  ∀ bottom, frames.getLast? = some bottom →
    ∃ head this, bottom.current = some this ∧ script.Begins head ∧ script.Chain head this

theorem Grounded.nil : Grounded script [] :=
  fun _ absent => nomatch absent

theorem Grounded.cons {lower : Frame} {rest : List Frame}
    (grounded : Grounded script (lower :: rest)) (upper : Frame) :
    Grounded script (upper :: lower :: rest) :=
  fun bottom last => grounded bottom (by rwa [List.getLast?_cons_cons] at last)

theorem Grounded.below {top : Frame} {rest : List Frame}
    (grounded : Grounded script (top :: rest)) : Grounded script rest := by
  cases rest with
  | nil => exact .nil
  | cons lower rest =>
      intro bottom last
      exact grounded bottom (by rwa [List.getLast?_cons_cons])

theorem Grounded.suffix {frames rest : List Frame} (grounded : Grounded script frames)
    (suffix : rest <:+ frames) : Grounded script rest := by
  obtain ⟨left, rfl⟩ := suffix
  induction left with
  | nil => exact grounded
  | cons top left ih => exact ih grounded.below

theorem Nested.suffix {frames rest : List Frame} (nested : Nested script frames)
    (suffix : rest <:+ frames) : Nested script rest := by
  obtain ⟨left, rfl⟩ := suffix
  induction left with
  | nil => exact nested
  | cons top left ih => exact ih nested.below

/-- The top frame may change if it stays on its statement. -/
theorem Grounded.replaceTop {old new : Frame} {rest : List Frame}
    (grounded : Grounded script (old :: rest)) (same : new.current = old.current) :
    Grounded script (new :: rest) := by
  cases rest with
  | nil =>
      rintro _ ⟨⟩
      obtain ⟨head, this, current, begins, chain⟩ := grounded old rfl
      exact ⟨head, this, same.trans current, begins, chain⟩
  | cons lower rest => exact grounded.below.cons new

/-- Leaving frames that are finished, the outermost one stays in its sequence. -/
theorem grounded_leaveFinished {top : Frame} {rest : List Frame}
    (nested : Nested script (top :: rest)) (grounded : Grounded script (top :: rest))
    {this : StatementRef} (current : top.current = some this) :
    Grounded script (resumed (leaveFinished (script.next this) (top :: rest)).1
      (leaveFinished (script.next this) (top :: rest)).2) := by
  induction rest generalizing top this with
  | nil =>
      cases next : script.next this with
      | some following =>
          rintro _ ⟨⟩
          obtain ⟨head, that, stands, begins, chain⟩ := grounded top rfl
          obtain rfl := Option.some.inj (current.symm.trans stands)
          exact ⟨head, following, rfl, begins, chain.later next⟩
      | none =>
          simp only [leaveFinished, nested.2.fallback]
          exact .nil
  | cons lower rest ih =>
      cases next : script.next this with
      | some following => exact grounded.below.cons _
      | none =>
          obtain ⟨_, ⟨that, statement, _, _, lowerCurrent, _, _, _, _, attached⟩, below⟩ := nested
          cases statement with
          | branch branches otherwise =>
              simp only [leaveFinished, attached.1]
              exact ih below grounded.below lowerCurrent
          | whileLoop | forLoop =>
              simp only [leaveFinished, attached.1, resumed]
              exact grounded.below.replaceTop lowerCurrent.symm
          | _ => exact attached.elim

/-- The frames of a context stand on a statement and on the compounds around it. -/
theorem Nested.stand {top : Frame} {rest : List Frame} (nested : Nested script (top :: rest))
    (grounded : Grounded script (top :: rest)) :
    ∃ this path, Stand (top :: rest) (this :: path) ∧ script.Enclosed this path := by
  induction rest generalizing top with
  | nil =>
      obtain ⟨head, this, current, begins, chain⟩ := grounded top rfl
      exact ⟨this, [], by simp [Stand, current], .outermost begins chain⟩
  | cons lower rest ih =>
      obtain ⟨_, ⟨compound, statement, head, this, lowerCurrent, found, member, current, chain,
        attached⟩, below⟩ := nested
      obtain ⟨that, path, stand, around⟩ := ih below grounded.below
      obtain rfl : that = compound := by
        have same : lower.current = some that := (List.cons.inj stand).1
        exact Option.some.inj (same.symm.trans lowerCurrent)
      have encloses : statement.Encloses := by
        cases statement with
        | branch | whileLoop | forLoop => trivial
        | _ => exact attached.elim
      refine ⟨this, that :: path, ?_, .inside found encloses member chain around⟩
      simp only [Stand, List.map_cons, current] at stand ⊢
      rw [stand]

/-- A frame can be broken out of if the frame below stands on a loop. -/
theorem Within.isLoop {upper lower : Frame} (within : upper.Within script lower)
    {compound : StatementRef} (current : lower.current = some compound) :
    upper.breakTarget.isSome = script.isLoop compound := by
  obtain ⟨that, statement, _, _, same, found, _, _, _, attached⟩ := within
  obtain rfl := Option.some.inj (current.symm.trans same)
  rw [Script.isLoop_of_found found]
  cases statement with
  | branch | whileLoop | forLoop => rw [attached.2.2]; rfl
  | _ => exact attached.elim

theorem loops_append (upper lower : List Frame) :
    loops (upper ++ lower) = loops upper + loops lower :=
  List.countP_append

theorem Nested.loops_eq {top : Frame} {rest : List Frame} (nested : Nested script (top :: rest))
    {this : StatementRef} {path : List StatementRef} (stand : Stand (top :: rest) (this :: path)) :
    loops (top :: rest) = script.loops path := by
  induction rest generalizing top this path with
  | nil =>
      obtain rfl : path = [] := List.map_eq_nil_iff.mp (List.cons.inj stand).2.symm
      simp [loops, Script.loops, nested.2.breakTarget]
  | cons lower rest ih =>
      obtain ⟨_, within, below⟩ := nested
      cases path with
      | nil => simp [Stand] at stand
      | cons compound path =>
          have stands : Stand (lower :: rest) (compound :: path) := (List.cons.inj stand).2
          rw [loops_cons, ih below stands, Script.loops, Script.loops, List.countP_cons,
            within.isLoop (List.cons.inj stands).1]

theorem Stand.split {upper lower : List Frame} {statements : List StatementRef}
    (stand : Stand (upper ++ lower) statements) :
    ∃ above below, statements = above ++ below ∧ Stand upper above ∧ Stand lower below := by
  unfold Stand at stand
  rw [List.map_append] at stand
  obtain ⟨above, below, rfl, upperStands, lowerStands⟩ := List.append_eq_map_iff.mp stand
  exact ⟨above, below, rfl, upperStands.symm, lowerStands.symm⟩

/-- The top frame may lose its cursor. -/
theorem Nested.withoutCursor {lower : Frame} {rest : List Frame}
    (nested : Nested script (lower :: rest)) {this : StatementRef}
    (current : lower.current = some this) :
    Nested script ({ lower with current := some this, iteration := none } :: rest) := by
  obtain ⟨that, statement, stands, found, _⟩ := nested.seated
  obtain rfl := Option.some.inj (current.symm.trans stands)
  refine nested.replaceTop ⟨this, statement, rfl, found, nofun⟩ rfl rfl rfl ?_
  intro head old same chain
  obtain rfl := Option.some.inj (current.symm.trans same)
  exact ⟨this, rfl, chain⟩

/-- Where the frames stand after the ones that are finished have been left. -/
theorem Nested.stand_leaveFinished {top : Frame} {rest : List Frame}
    (nested : Nested script (top :: rest)) {this : StatementRef} {path : List StatementRef}
    (stand : Stand (top :: rest) (this :: path)) :
    Stand (resumed (leaveFinished (script.next this) (top :: rest)).1
      (leaveFinished (script.next this) (top :: rest)).2) (script.after path this) := by
  induction rest generalizing top this path with
  | nil =>
      obtain rfl : path = [] := List.map_eq_nil_iff.mp (List.cons.inj stand).2.symm
      cases next : script.next this with
      | some following => simp [leaveFinished, resumed, Stand, Script.after, next]
      | none => simp [leaveFinished, nested.2.fallback, resumed, Stand, Script.after, next]
  | cons lower rest ih =>
      cases path with
      | nil => simp [Stand] at stand
      | cons compound path =>
          have stands : Stand (lower :: rest) (compound :: path) := (List.cons.inj stand).2
          have lowerCurrent : lower.current = some compound := (List.cons.inj stands).1
          cases next : script.next this with
          | some following =>
              simp only [leaveFinished, resumed, Script.after, next, Stand, List.map_cons]
              rw [lowerCurrent, (List.cons.inj stands).2]
          | none =>
              obtain ⟨_, ⟨that, statement, _, _, same, found, _, _, _, attached⟩, below⟩ := nested
              obtain rfl := Option.some.inj (lowerCurrent.symm.trans same)
              have kind := Script.isLoop_of_found found
              cases statement with
              | branch branches otherwise =>
                  have behind := ih below stands
                  simpa only [leaveFinished, attached.1, Script.after, next, kind,
                    Statement.isLoop, Bool.false_eq_true, if_false] using behind
              | whileLoop | forLoop =>
                  simp only [leaveFinished, attached.1, resumed, Script.after, next, kind,
                    Statement.isLoop, if_true, Stand, List.map_cons]
                  rw [(List.cons.inj stands).2]
              | _ => exact attached.elim

end Frame

/-!
## Breaking out of loops
-/

namespace Context

theorem frames_proceed (context : Context) :
    context.proceed.frames =
      Frame.resumed
        (Frame.leaveFinished (context.current.bind context.script.next) context.frames).1
        (Frame.leaveFinished (context.current.bind context.script.next) context.frames).2 := by
  simp only [proceed, frames_resumeAt]

/-- What breaking out does is told by the compounds around the statement: it leaves the given
number of the innermost loops, whatever branches there are between them, and proceeds from
the outermost of these loops. The frames of the loops around stay as they are. -/
theorem breakOut_enclosed {context : Context}
    (nested : Frame.Nested context.script context.frames) {this : StatementRef}
    {path : List StatementRef} (stand : Frame.Stand context.frames (this :: path)) {count : Nat}
    (positive : 0 < count) (enough : count ≤ context.script.loops path) :
    ∃ inner loop outer frame rest after, path = inner ++ loop :: outer ∧
      context.script.isLoop loop = true ∧ context.script.loops inner + 1 = count ∧
      frame :: rest <:+ context.frames ∧ Frame.Stand (frame :: rest) (loop :: outer) ∧
      context.breakOut count = (.ok (), after) ∧
      after = (context.standing (some loop) ({ frame with iteration := none } :: rest)).proceed ∧
      Frame.Stand after.frames (context.script.after outer loop) := by
  cases split : context.frames with
  | nil => simp [Frame.Stand, split] at stand
  | cons top rest =>
      rw [split] at nested stand
      have counted := nested.loops_eq stand
      rw [← counted, ← split] at enough
      obtain ⟨left, frame, below, target, sameSplit, number, breakTarget, answer⟩ :=
        (context.breaksOut count).enough positive enough
      rw [split] at sameSplit
      have frameNested : Frame.Nested context.script (frame :: below) :=
        nested.suffix ⟨left, sameSplit.symm⟩
      obtain ⟨lower, lowest, rfl, lowerCurrent⟩ := frameNested.target (.inr breakTarget)
      -- the statements above the last loop are those of the frames that are left
      rw [sameSplit, List.append_cons] at stand
      obtain ⟨above, outside, statements, leftStand, lowerStand⟩ := stand.split
      obtain ⟨inner, rfl⟩ : ∃ inner, above = this :: inner := by
        cases above with
        | nil => simp [Frame.Stand] at leftStand
        | cons that inner => exact ⟨inner, by rw [(List.cons.inj statements).1]⟩
      obtain ⟨outer, rfl⟩ : ∃ outer, outside = target :: outer := by
        cases outside with
        | nil => simp [Frame.Stand] at lowerStand
        | cons loop outer =>
            have same : lower.current = some loop := (List.cons.inj lowerStand).1
            obtain rfl := Option.some.inj (lowerCurrent.symm.trans same)
            exact ⟨outer, rfl⟩
      obtain rfl : path = inner ++ target :: outer := (List.cons.inj statements).2
      have isLoop : context.script.isLoop target = true := by
        rw [← frameNested.2.1.isLoop lowerCurrent, breakTarget]
        rfl
      have innerLoops : context.script.loops inner + 1 = count := by
        have outerCounted := frameNested.below.loops_eq lowerStand
        rw [sameSplit, Frame.loops_append, Frame.loops_cons, outerCounted, breakTarget,
          Script.loops, Script.loops, List.countP_append, List.countP_cons, isLoop] at counted
        simp only [Option.isSome_some, if_true] at counted
        rw [Script.loops]
        omega
      have suffix : lower :: lowest <:+ top :: rest :=
        ⟨left ++ [frame], by rw [sameSplit, List.append_assoc, List.singleton_append]⟩
      refine ⟨inner, target, outer, lower, lowest, _, rfl, isLoop, innerLoops, suffix, lowerStand,
        answer, rfl, ?_⟩
      rw [frames_proceed]
      refine (frameNested.below.withoutCursor lowerCurrent).stand_leaveFinished ?_
      simp only [Frame.Stand, List.map_cons] at lowerStand ⊢
      rw [(List.cons.inj lowerStand).2]

/-- With too few loops around the statement, breaking out fails. -/
theorem breakOut_enclosed_few {context : Context}
    (nested : Frame.Nested context.script context.frames) {this : StatementRef}
    {path : List StatementRef} (stand : Frame.Stand context.frames (this :: path)) {count : Nat}
    (few : context.script.loops path < count) :
    context.breakOut count =
      (.error (if context.script.loops path = 0 then .noBreakTarget
        else .tooFewCompounds (count - context.script.loops path)),
        { context with frames := [] }) := by
  have counted : Frame.loops context.frames = context.script.loops path := by
    cases split : context.frames with
    | nil => simp [Frame.Stand, split] at stand
    | cons top rest =>
        rw [split] at nested stand
        exact nested.loops_eq stand
  have breaks := context.breaksOut count
  rw [← counted] at few ⊢
  split
  · next absent => exact breaks.none (Nat.lt_of_le_of_lt (Nat.zero_le _) few) absent
  · next present => exact breaks.few (Nat.pos_of_ne_zero present) few

end Context

end ScriptEngine
