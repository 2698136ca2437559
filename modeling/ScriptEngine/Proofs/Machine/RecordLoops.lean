import ScriptEngine.Proofs.Machine.Loops
import ScriptEngine.Proofs.Machine.Members

/-!
# `for` loops over records

A loop over a record gets the names of its members in their order. The cursor is a position among
the names that are there at the time. No name is taken away while the loop is under way, so the
position of a name can only grow, and the loop misses no name that was there when it was entered.
If a pass adds a name in front of the one that it got, then the loop gets this one again; and
only so can a name come twice (`Run.record_loops_get_every_member`).
-/

set_option autoImplicit false

namespace ScriptEngine

/-!
## Positions of names
-/

namespace Record

/-- How many members have names in front of the given one. -/
def rank (record : Record) (name : String) : Nat :=
  record.names.countP (· < name)

private theorem countP_of_getElem? {names : List String} (ordered : names.Pairwise (· < ·))
    {position : Nat} {name : String} (found : names[position]? = some name) :
    names.countP (· < name) = position := by
  induction names generalizing position with
  | nil => cases found
  | cons first rest ih =>
      obtain ⟨before, later⟩ := List.pairwise_cons.mp ordered
      cases position with
      | zero =>
          obtain rfl : first = name := Option.some.inj found
          refine List.countP_eq_zero.mpr fun other member front => ?_
          have front := of_decide_eq_true front
          rcases List.mem_cons.mp member with rfl | member
          · exact lt_irrefl _ front
          · exact lt_asymm front (before other member)
      | succ position =>
          rw [List.getElem?_cons_succ] at found
          have front := before name (List.mem_of_getElem? found)
          rw [List.countP_cons, ih later found, if_pos (decide_eq_true front)]

variable {record after : Record} {name other : String}

/-- A member stands behind all those whose names are in front of its own. -/
theorem getElem?_names {position : Nat} :
    record.names[position]? = some name ↔ name ∈ record.names ∧ record.rank name = position := by
  constructor
  · exact fun found => ⟨List.mem_of_getElem? found, countP_of_getElem? record.ordered found⟩
  · rintro ⟨member, rfl⟩
    obtain ⟨position, found⟩ := List.mem_iff_getElem?.mp member
    have same : record.rank name = position := countP_of_getElem? record.ordered found
    rwa [same]

theorem rank_lt_length (member : name ∈ record.names) : record.rank name < record.names.length :=
  (List.getElem?_eq_some_iff.mp (getElem?_names.mpr ⟨member, rfl⟩)).1

theorem rank_mono (front : name ≤ other) : record.rank name ≤ record.rank other :=
  List.countP_mono_left fun _ _ below =>
    decide_eq_true ((of_decide_eq_true below).trans_le front)

theorem rank_le_of_kept (kept : ∀ key ∈ record.names, key < name → key ∈ after.names) :
    record.rank name ≤ after.rank name := by
  have nodup : (record.names.filter (· < name)).Nodup := record.ordered.nodup.filter _
  have inside : record.names.filter (· < name) ⊆ after.names.filter (· < name) := by
    intro key member
    obtain ⟨member, front⟩ := List.mem_filter.mp member
    exact List.mem_filter.mpr ⟨kept key member (of_decide_eq_true front), front⟩
  simpa only [rank, List.countP_eq_length_filter] using (nodup.subperm inside).length_le

/-- One more name in front moves a member on. -/
theorem rank_lt_of_added (kept : ∀ key ∈ record.names, key ∈ after.names) {added : String}
    (present : added ∈ after.names) (absent : added ∉ record.names) (front : added < name) :
    record.rank name < after.rank name := by
  have more : (added :: record.names).Subperm after.names :=
    (List.nodup_cons.mpr ⟨absent, record.ordered.nodup⟩).subperm
      (List.cons_subset.mpr ⟨present, kept⟩)
  have counted := more.countP_le (· < name)
  rwa [List.countP_cons, if_pos (decide_eq_true front)] at counted

end Record

namespace Session

/-!
## Passes over a record
-/

/-- In this turn, the loop that the first turn enters begins a pass, and gets the name. -/
structure Yields (run : Nat → Session) (turn : Nat) (name : String) : Prop where
  underWay : UnderWay run turn
  inside : (run turn).innermost = (run 0).innermost
  passing : (run turn).passing = some (.text name)

/-- The loop that the first turn enters is over after this turn, but no break and no return of its
context leaves it, and no error does. -/
structure Completes (run : Nat → Session) (last : Nat) : Prop where
  underWay : UnderWay run last
  gone : (run (last + 1)).cursor? (run 0).innermost = none
  stays : ¬((run last).Leaves ∧ (run last).stack.length = (run 0).stack.length)
  passed : ∀ failure, (run last).advance.1 ≠ .failed failure

/-- The pass that begins in turn `earlier` gets the name. It still goes on in turn `later`, but
now the record has a new name in front of this one. -/
structure AddsInFront (run : Nat → Session) (reference : RecordRef) (earlier later : Nat)
    (name : String) : Prop where
  yields : Yields run earlier name
  before : earlier < later
  underWay : UnderWay run later
  goesOn : passes run later = passes run (earlier + 1)
  added : ∃ added ∈ ((run later).heap.record reference).names,
    added ∉ ((run earlier).heap.record reference).names ∧ added < name

theorem UnderWay.of_le {run : Nat → Session} {turns more : Nat} (underWay : UnderWay run more)
    (fewer : turns ≤ more) : UnderWay run turns :=
  fun turn positive first => underWay turn positive (first.trans fewer)

theorem Completes.le {run : Nat → Session} {last turn : Nat} (completes : Completes run last)
    (underWay : UnderWay run turn) : turn ≤ last := by
  by_contra later
  have still := underWay (last + 1) (Nat.succ_pos last) (Nat.lt_of_not_le later)
  rw [completes.gone] at still
  cases still

theorem Yields.passes_succ {run : Nat → Session} {turn : Nat} {name : String}
    (yields : Yields run turn name) : passes run (turn + 1) = passes run turn + 1 :=
  passes_of_begins yields.inside (by rw [yields.passing]; rfl)

/-!
## Loops that come to their end
-/

theorem Leaves.testing_eq_none {session : Session} (leaves : session.Leaves) :
    session.testing = none := by
  cases leaves with
  | breaks stack current found | returns stack current found =>
      simp only [testing, stack, current, Option.bind_some, found, ite_self]
  | returnsValue stack => simp only [testing, stack]

/-- The loop that the first turn enters is tested in turn `last`, and then it is over. -/
def endsIn (run : Nat → Session) (last : Nat) : Bool :=
  (List.range last).all (fun turn => ((run (turn + 1)).cursor? (run 0).innermost).isSome) &&
    ((run (last + 1)).cursor? (run 0).innermost).isNone && (run last).testing.isSome &&
    ((run last).advance.1 matches .working)

theorem completes_of_endsIn {run : Nat → Session} {last : Nat} (ends : endsIn run last = true) :
    Completes run last := by
  simp only [endsIn, Bool.and_eq_true, List.all_eq_true, List.mem_range,
    Option.isNone_iff_eq_none] at ends
  obtain ⟨⟨⟨all, gone⟩, tests⟩, works⟩ := ends
  refine ⟨fun turn first inTime => ?_, gone, fun ⟨leaves, _⟩ => ?_, fun failure failed => ?_⟩
  · obtain ⟨before, rfl⟩ := Nat.exists_eq_succ_of_ne_zero (Nat.ne_of_gt first)
    exact all before inTime
  · rw [leaves.testing_eq_none] at tests
    cases tests
  · rw [failed] at works
    cases works

/-- This turn begins a pass of the loop that the first turn enters, with the given name. -/
def beginsWith (run : Nat → Session) (turn : Nat) (name : String) : Bool :=
  decide ((run turn).innermost = (run 0).innermost) && (run turn).passing.any (·.isText name)

theorem yields_of_beginsWith {run : Nat → Session} {turn : Nat} {name : String}
    (underWay : UnderWay run turn) (begins : beginsWith run turn name = true) :
    Yields run turn name := by
  obtain ⟨inside, begins⟩ := Bool.and_eq_true_iff.mp begins
  obtain ⟨item, passing, isText⟩ := (Option.any_eq_true _ _).mp begins
  exact ⟨underWay, of_decide_eq_true inside, Value.eq_of_isText isText ▸ passing⟩

/-- The record that the next turn enters a loop over, if it does so. -/
def enteringRecord? (session : Session) : Option RecordRef :=
  match session.entering with
  | some (.record reference) => some reference
  | _ => none

theorem entering_of_record {session : Session} {reference : RecordRef}
    (found : session.enteringRecord? = some reference) :
    session.entering = some (.record reference) := by
  unfold enteringRecord? at found
  split at found
  · next entering =>
      cases found
      exact entering
  · cases found

theorem Lent.of_run {timeLimit : Option Nat} {script : Script} {started : Session}
    (parsed : script.Parsed) (begun : (Session.new timeLimit).run script = .ok started) :
    Lent [] started :=
  ⟨timeLimit, .step .now (.run parsed begun)⟩

theorem Lent.turns {lent : List Value} {session : Session} (lending : Lent lent session)
    (turns : Nat) : Lent lent (session.turnsFrom turns) := by
  induction turns with
  | zero => exact lending
  | succ turns ih =>
      obtain ⟨timeLimit, later⟩ := ih
      rw [turnsFrom_succ]
      exact ⟨timeLimit, .step later .advance⟩

/-!
## Names that a loop gets
-/

namespace Run

variable {run : Nat → Session} (runs : Run run)

include runs

section

variable {lent : List Value} (lending : Lent lent (run 0)) {reference : RecordRef}
  (enters : (run 0).entering = some (.record reference))

include enters

omit runs in
theorem held_of_entering : ¬(run 0).Among (· ≠ reference) := by
  intro among
  unfold entering at enters
  split at enters
  · next context _ _ _ _ below stack =>
      have top := among.stack _ (stack ▸ List.mem_cons_self)
      obtain ⟨value, _⟩ := top.context.evaluation.advance among.heap
      split at enters
      · next taken =>
          cases enters
          rw [taken] at value
          exact value rfl
      · cases enters
  · cases enters

include lending

theorem apart (turn : Nat) : (run turn).Apart reference := by
  induction turn with
  | zero => exact lending.apart (held_of_entering enters)
  | succ turn ih =>
      have next := ih.advance (runs.tidy_at turn).staged.layout
      have same := runs.goesOn turn
      exact ⟨⟨same.heap ▸ next.unowned.present, same.stack ▸ next.unowned.unowned⟩,
        same.globals ▸ next.ne_globals⟩

/-- The record over which the loop goes loses no member. -/
theorem keepsNames (turn : Nat) :
    Heap.KeepsNames reference (run turn).heap (run (turn + 1)).heap := by
  have layout := (runs.tidy_at turn).staged.layout
  have kept := advance_keepsNames layout ((runs.apart lending enters turn).names layout)
  rwa [← (runs.goesOn turn).heap] at kept

theorem keepsNames_of_le {earlier later : Nat} (before : earlier ≤ later) :
    Heap.KeepsNames reference (run earlier).heap (run later).heap := by
  induction later, before using Nat.le_induction with
  | base => exact .refl _
  | succ later _ ih => exact ih.trans (runs.keepsNames lending enters later)

end

section

variable {reference : RecordRef} (enters : (run 0).entering = some (.record reference))

include enters

/-- The loop gets the name at the position that counts its passes. -/
theorem position_of_yields {turn : Nat} {name : String} (yields : Yields run turn name) :
    ((run turn).heap.record reference).names[passes run turn]? = some name := by
  have found := runs.itemAt_of_passing enters rfl yields.underWay yields.inside yields.passing
  obtain ⟨key, found, same⟩ := Option.map_eq_some_iff.mp found
  cases same
  exact found

/-- Whatever pass begins gets a name. -/
theorem yields_of_passing {turn : Nat} (underWay : UnderWay run turn)
    (inside : (run turn).innermost = (run 0).innermost)
    (passing : (run turn).passing.isSome = true) : ∃ name, Yields run turn name := by
  obtain ⟨item, passing⟩ := Option.isSome_iff_exists.mp passing
  have found := runs.itemAt_of_passing enters rfl underWay inside passing
  obtain ⟨name, _, rfl⟩ := Option.map_eq_some_iff.mp found
  exact ⟨name, underWay, inside, passing⟩

/-- A turn begins a pass, or there are as many passes as before. -/
theorem yields_or_passes {turn : Nat} (underWay : UnderWay run turn) :
    (∃ name, Yields run turn name) ∨ passes run (turn + 1) = passes run turn := by
  by_cases inside : (run turn).innermost = (run 0).innermost
  · cases begins : (run turn).passing with
    | none => exact .inr (passes_of_not (.inl begins))
    | some item =>
        exact .inl (runs.yields_of_passing enters underWay inside (by rw [begins]; rfl))
  · exact .inr (passes_of_not (.inr inside))

/-- At the end the position is behind all names. -/
theorem length_le_of_completes {last : Nat} (completes : Completes run last) :
    ((run last).heap.record reference).names.length ≤ passes run last := by
  cases runs.loopTurn_of_underWay enters rfl completes.underWay with
  | goesOn held =>
      rw [completes.gone] at held
      cases held
  | left leaves depth => exact (completes.stays ⟨leaves, depth⟩).elim
  | failed failed =>
      obtain ⟨failure, failed⟩ := failed
      exact (completes.passed failure failed).elim
  | ends exhausted =>
      exact List.getElem?_eq_none_iff.mp (Option.map_eq_none_iff.mp exhausted)

variable {lent : List Value} (lending : Lent lent (run 0))

include lending

/-- The loop still gets a name whose position it has not passed. -/
theorem yields_of_le_rank {last : Nat} (completes : Completes run last) {turn : Nat}
    (underWay : UnderWay run turn) {name : String}
    (member : name ∈ ((run turn).heap.record reference).names)
    (ahead : passes run turn ≤ ((run turn).heap.record reference).rank name) :
    ∃ later, turn ≤ later ∧ Yields run later name := by
  have inTime := completes.le underWay
  clear underWay
  induction inTime using Nat.decreasingInduction with
  | self =>
      have inside := Record.rank_lt_length member
      have behind := runs.length_le_of_completes enters completes
      omega
  | of_succ turn before ih =>
      have underWay := completes.underWay.of_le (Nat.le_of_lt before)
      have kept := runs.keepsNames lending enters turn
      have moved := Record.rank_le_of_kept fun key member (_ : key < name) => kept key member
      rcases runs.yields_or_passes enters underWay with ⟨other, yields⟩ | same
      · have more := yields.passes_succ
        have found := runs.position_of_yields enters yields
        by_cases this : other = name
        · exact ⟨turn, Nat.le_refl _, this ▸ yields⟩
        · have passed : passes run turn ≠ ((run turn).heap.record reference).rank name := by
            intro position
            rw [Record.getElem?_names.mpr ⟨member, position.symm⟩] at found
            exact this (Option.some.inj found).symm
          obtain ⟨later, after, yields⟩ := ih (kept name member) (by omega)
          exact ⟨later, Nat.le_of_succ_le after, yields⟩
      · obtain ⟨later, after, yields⟩ := ih (kept name member) (by omega)
        exact ⟨later, Nat.le_of_succ_le after, yields⟩

/-- A name comes again when another is added in front of it. -/
theorem yields_of_addsInFront {last : Nat} (completes : Completes run last)
    {earlier later : Nat} {name : String} (adds : AddsInFront run reference earlier later name) :
    ∃ again, later ≤ again ∧ Yields run again name := by
  have kept := runs.keepsNames_of_le lending enters (Nat.le_of_lt adds.before)
  obtain ⟨member, position⟩ := Record.getElem?_names.mp
    (runs.position_of_yields enters adds.yields)
  obtain ⟨added, present, absent, front⟩ := adds.added
  have moved := Record.rank_lt_of_added kept present absent front
  refine runs.yields_of_le_rank enters lending completes adds.underWay (kept name member) ?_
  rw [adds.goesOn, adds.yields.passes_succ]
  omega

omit lending in
/-- A pass gets a name behind that of the pass before, if none is added in front of that. -/
theorem lt_of_yields {earlier later : Nat} {name next : String} (yields : Yields run earlier name)
    (follows : Yields run later next) (before : earlier < later)
    (goesOn : passes run later = passes run (earlier + 1))
    (quiet : ¬AddsInFront run reference earlier later name) : name < next := by
  obtain ⟨member, position⟩ := Record.getElem?_names.mp (runs.position_of_yields enters yields)
  obtain ⟨_, beyond⟩ := Record.getElem?_names.mp (runs.position_of_yields enters follows)
  have same : ((run later).heap.record reference).rank name ≤ passes run earlier := by
    refine (Record.rank_le_of_kept fun key present front => ?_).trans position.le
    by_contra absent
    exact quiet ⟨yields, before, follows.underWay, goesOn, key, present, absent, front⟩
  by_contra behind
  have least : _ ≤ ((run later).heap.record reference).rank name :=
    Record.rank_mono (not_lt.mp behind)
  rw [beyond, goesOn, yields.passes_succ] at least
  omega

omit lending in
/-- Between two passes that get the same name, another is added in front of one that a pass got. -/
theorem addsInFront_of_yields {early late : Nat} {name : String} (before : early < late)
    (first : Yields run early name) (second : Yields run late name) :
    ∃ earlier later passed, early ≤ earlier ∧ later ≤ late ∧
      AddsInFront run reference earlier later passed := by
  by_contra none
  have quiet {earlier later : Nat} {passed : String} (from' : early ≤ earlier) (upTo : later ≤ late) :
      ¬AddsInFront run reference earlier later passed :=
    fun adds => none ⟨earlier, later, passed, from', upTo, adds⟩
  -- The pass that goes on has a name which is not in front of the first.
  have onward (turn : Nat) (started : early + 1 ≤ turn) (inTime : turn ≤ late) :
      ∃ earlier passed, early ≤ earlier ∧ earlier < turn ∧ Yields run earlier passed ∧
        name ≤ passed ∧ passes run turn = passes run (earlier + 1) := by
    induction turn, started using Nat.le_induction with
    | base => exact ⟨early, name, Nat.le_refl _, Nat.lt_succ_self _, first, le_refl _, rfl⟩
    | succ turn started ih =>
        obtain ⟨earlier, passed, since, before, yields, front, goesOn⟩ :=
          ih (Nat.le_of_succ_le inTime)
        have underWay := second.underWay.of_le (Nat.le_of_succ_le inTime)
        rcases runs.yields_or_passes enters underWay with ⟨next, follows⟩ | same
        · have increases := runs.lt_of_yields enters yields follows before goesOn
            (quiet since (Nat.le_of_succ_le inTime))
          exact ⟨turn, next, Nat.le_of_succ_le started, Nat.lt_succ_self _, follows,
            front.trans increases.le, rfl⟩
        · exact ⟨earlier, passed, since, Nat.lt_succ_of_lt before, yields, front,
            same.trans goesOn⟩
  obtain ⟨earlier, passed, since, before', yields, front, goesOn⟩ :=
    onward late before (Nat.le_refl _)
  have increases := runs.lt_of_yields enters yields second before' goesOn
    (quiet since (Nat.le_refl _))
  exact front.not_gt increases

end

/-- A record over which a loop goes loses no member. Each pass of the loop begins the body with
the name at the position that counts the passes. A name comes twice only if in between, while a
pass goes on, a name is added in front of the one that this pass got. If the loop runs to its
end, then it gets each name that was there when it was entered; it gets a name again when another
is added in front of it; and if that never happens, it gets each name that was there once. -/
theorem record_loops_get_every_member {lent : List Value} (lending : Lent lent (run 0))
    {reference : RecordRef} (enters : (run 0).entering = some (.record reference)) :
    (∀ turn, Heap.KeepsNames reference (run turn).heap (run (turn + 1)).heap) ∧
      (∀ turn name, Yields run turn name → (run turn).BeginsPass (.text name) ∧
        ((run turn).heap.record reference).names[passes run turn]? = some name) ∧
      (∀ early late name, early < late → Yields run early name → Yields run late name →
        ∃ earlier later passed, early ≤ earlier ∧ later ≤ late ∧
          AddsInFront run reference earlier later passed) ∧
      ∀ last, Completes run last →
        (∀ name ∈ ((run 0).heap.record reference).names, ∃ turn, Yields run turn name) ∧
        (∀ earlier later name, AddsInFront run reference earlier later name →
          ∃ again, later ≤ again ∧ Yields run again name) ∧
        ((∀ earlier later name, ¬AddsInFront run reference earlier later name) →
          ∀ name ∈ ((run 0).heap.record reference).names, ∃! turn, Yields run turn name) := by
  have twice {early late : Nat} {name : String} (before : early < late)
      (first : Yields run early name) (second : Yields run late name) :=
    runs.addsInFront_of_yields enters before first second
  refine ⟨runs.keepsNames lending enters, fun turn name yields =>
    ⟨beginsPass_of_passing (runs.fine_at turn) yields.passing,
      runs.position_of_yields enters yields⟩, fun _ _ _ => twice, fun last completes => ?_⟩
  have all (name : String) (member : name ∈ ((run 0).heap.record reference).names) :
      ∃ turn, Yields run turn name := by
    obtain ⟨turn, _, yields⟩ := runs.yields_of_le_rank enters lending completes
      (completes.underWay.of_le (Nat.zero_le last)) member (Nat.zero_le _)
    exact ⟨turn, yields⟩
  refine ⟨all, fun _ _ _ => runs.yields_of_addsInFront enters lending completes,
    fun quiet name member => ?_⟩
  obtain ⟨turn, yields⟩ := all name member
  refine ⟨turn, yields, fun other again => ?_⟩
  by_contra different
  rcases Nat.lt_or_gt_of_ne different with before | before
  · obtain ⟨_, _, _, _, _, adds⟩ := twice before again yields
    exact quiet _ _ _ adds
  · obtain ⟨_, _, _, _, _, adds⟩ := twice before yields again
    exact quiet _ _ _ adds

end Run

/-- The passes of this loop add `c`, which is behind the names that are there. So the loop gets
`a`, which was there, once. -/
theorem record_loop_gets_a_name_once :
    ∃ (run : Nat → Session) (reference : RecordRef) (last : Nat), Run run ∧ Lent [] (run 0) ∧
      (run 0).entering = some (.record reference) ∧
      "a" ∈ ((run 0).heap.record reference).names ∧ Completes run last ∧
      ∃! turn, Yields run turn "a" := by
  have passed : ((Script.ofSource
      "record r\na = 1\nb = 1\nend\nfor x in r\nr.c = 0\nend\n").toOption.any
      fun script => ((Session.new none).run script).toOption.any fun started =>
        let run := (started.turnsFrom 10).turnsFrom
        (run 0).enteringRecord?.any (fun reference => (List.range 19).all fun turn =>
            ((run turn).heap.record reference).names.all (· ≤ "c") &&
              ((run turn).heap.record reference).names.filter (· < "c") == ["a", "b"]) &&
          endsIn run 18) = true := by
    decide +kernel
  obtain ⟨script, started, accepted, begun, passed⟩ := eq_of_runs passed
  obtain ⟨enters, ends⟩ := Bool.and_eq_true_iff.mp passed
  have parsed := Script.parsed_ofSource accepted
  have completes := completes_of_endsIn ends
  have tidy : (started.turnsFrom 10).Tidy := ((Tidy.new none).run parsed begun).turns 10
  have lending := (Lent.of_run parsed begun).turns 10
  obtain ⟨reference, entering, enters⟩ := (Option.any_eq_true _ _).mp enters
  have entering := entering_of_record entering
  simp only [List.all_eq_true, List.mem_range, Bool.and_eq_true, beq_iff_eq,
    decide_eq_true_eq] at enters
  obtain ⟨_, position, _, complete⟩ :=
    (Run.of_turns tidy).record_loops_get_every_member lending entering
  obtain ⟨_, _, once⟩ := complete 18 completes
  have member : "a" ∈ (((started.turnsFrom 10).turnsFrom 0).heap.record reference).names :=
    List.mem_of_mem_filter ((enters 0 (by decide)).2 ▸ List.mem_cons_self)
  refine ⟨_, reference, 18, .of_turns tidy, lending, entering, member, completes,
    once (fun earlier later name adds => ?_) "a" member⟩
  obtain ⟨added, present, absent, front⟩ := adds.added
  have inTime := completes.le adds.underWay
  obtain ⟨atMost, early⟩ := enters earlier (by have := adds.before; omega)
  have late := (enters later (by omega)).2
  -- The name that the pass got is `c` at the most, and in front of `c` nothing is new.
  have least := atMost name (List.mem_of_getElem? (position earlier name adds.yields).2)
  have old : added ∈ ["a", "b"] :=
    late ▸ List.mem_filter.mpr ⟨present, decide_eq_true (front.trans_le least)⟩
  rw [← early] at old
  exact absent (List.mem_of_mem_filter old)

/-- A pass of this loop adds `a` in front of `b`. So the loop gets `b` twice, and is at its end
then, without a jump or an error. -/
theorem record_loop_gets_a_name_twice :
    ∃ (run : Nat → Session) (reference : RecordRef) (last : Nat), Run run ∧ Lent [] (run 0) ∧
      (run 0).entering = some (.record reference) ∧
      "b" ∈ ((run 0).heap.record reference).names ∧ Completes run last ∧
      Yields run 0 "b" ∧ Yields run 6 "b" := by
  have passed : ((Script.ofSource "record r\nb = 1\nend\nfor x in r\nr.a = 0\nend\n").toOption.any
      fun script => ((Session.new none).run script).toOption.any fun started =>
        let run := (started.turnsFrom 7).turnsFrom
        (run 0).enteringRecord?.any
            (fun reference => decide ("b" ∈ ((run 0).heap.record reference).names)) &&
          endsIn run 12 && beginsWith run 0 "b" && beginsWith run 6 "b") = true := by
    decide +kernel
  obtain ⟨script, started, accepted, begun, passed⟩ := eq_of_runs passed
  simp only [Bool.and_eq_true] at passed
  obtain ⟨⟨⟨enters, ends⟩, first⟩, second⟩ := passed
  have parsed := Script.parsed_ofSource accepted
  have completes := completes_of_endsIn ends
  obtain ⟨reference, entering, member⟩ := (Option.any_eq_true _ _).mp enters
  exact ⟨_, reference, 12, .of_turns (((Tidy.new none).run parsed begun).turns 7),
    (Lent.of_run parsed begun).turns 7, entering_of_record entering, of_decide_eq_true member,
    completes, yields_of_beginsWith (completes.underWay.of_le (Nat.zero_le 12)) first,
    yields_of_beginsWith (completes.underWay.of_le (by decide)) second⟩

end Session

end ScriptEngine
