import ScriptEngine.Proofs.Machine.Loops
import ScriptEngine.Proofs.Machine.Members
import ScriptEngine.Proofs.Value.Comparison
import ScriptEngine.Proofs.Value.Inheritance
import ScriptEngine.Proofs.Value.Positions

/-!
# One sequence, seen in many ways

An array, a text or a record is a sequence of items: what it holds, its characters, or the names
of its own members. The native length, a cursor, indices from both ends, membership and the
names of the members are computed apart from each other. They agree on one list of items
(`Iteration.views_agree`), as long as the value is not changed while the cursor is used. Other
values may change meanwhile.
-/

set_option autoImplicit false

namespace ScriptEngine

open Binary64

/-- The values that can be iterated. -/
def Value.IsSequence : Value → Prop
  | array _ | text _ | record _ => True
  | none | number _ | bool _ | function _ => False

/-- Items are counted by their positions. -/
def Value.IsIndexed : Value → Prop
  | array _ | text _ => True
  | none | number _ | bool _ | record _ | function _ => False

namespace Heap

/-- The items of a sequence, from the first to the last. -/
def items (heap : Heap) : Value → List Value
  | .array reference => (heap.array reference).toList
  | .text text => text.toList.map fun character => .text character.toString
  | .record reference => (heap.record reference).names.map Value.text
  | .none | .number _ | .bool _ | .function _ => []

/-- The object that the value refers to, if it does, is the same in both heaps. -/
def Keeps (before after : Heap) : Value → Prop
  | .array reference => after.array reference = before.array reference
  | .record reference => after.record reference = before.record reference
  | .none | .number _ | .text _ | .bool _ | .function _ => True

/-- What a heap tells about a sequence are these items, in every way that there is to ask. -/
structure Shows (heap : Heap) (source : Value) (items : List Value) : Prop where
  counted : Session.lengthOf heap source = .ok items.length
  native : ∀ (session : Session) (receiver : Option Value), session.heap = heap →
    session.runNative .length [source] receiver =
      (.ok (.number (Float.ofNat items.length)), session)
  /-- An index counts from the start or from the end. -/
  indexed : source.IsIndexed → ∀ (position : Nat) item number, items[position]? = some item →
    integer? number = some (position : Int) ∨
      integer? number = some (position - items.length : Int) →
    heap.element source (.number number) = .ok item
  outside : source.IsIndexed → ∀ number whole, integer? number = some whole →
    whole < -items.length ∨ items.length ≤ whole →
    heap.element source (.number number) = .error (.indexOutOfRange (.number number) items.length)
  characters : ∀ text, source = .text text → ∃ parts : List String, items = parts.map Value.text ∧
    (∀ part ∈ parts, part.length = 1) ∧ String.join parts = text
  members : ∀ reference, source = .record reference → ∃ names : List String,
    items = names.map Value.text ∧ names.Pairwise (· < ·) ∧
    (∀ name, name ∈ names ↔ (heap.record reference).contains name = true) ∧
    ∀ name ∈ names, heap.contains source (.text name) = some (.ok true) ∧
      ∃ value, (heap.record reference).get? name = some value ∧
        heap.element source (.text name) = .ok value
  /-- A value is sought from left to right. There is no answer if that comes to a comparison
  that goes on for ever. -/
  contained : ∀ reference, source = .array reference → ∀ sought,
    (heap.contains source sought = none ∧ heap.Unanswered sought items) ∨
    ∃ answer, heap.contains source sought = some (.ok answer) ∧ ¬heap.Unanswered sought items ∧
      (answer = true ↔ ∃ item ∈ items, heap.equal? item sought = some true)

variable {heap : Heap} {source : Value}

theorem items_of_keeps {after : Heap} (kept : heap.Keeps after source) :
    after.items source = heap.items source := by
  cases source with
  | array reference =>
      have same : after.array reference = heap.array reference := kept
      simp only [items, same]
  | record reference =>
      have same : after.record reference = heap.record reference := kept
      simp only [items, same]
  | none | number | text | bool | function => rfl

theorem itemAt_eq_items (heap : Heap) (source : Value) (position : Nat) :
    Iteration.itemAt heap source position = (heap.items source)[position]? := by
  cases source with
  | array | text | record => simp [Iteration.itemAt, items]
  | none | number | bool | function => rfl

theorem lengthOf_eq_items (sequence : source.IsSequence) :
    Session.lengthOf heap source = .ok (heap.items source).length := by
  cases source with
  | array | text | record =>
      simp [Session.lengthOf, items, Record.size, Record.names, String.length_toList]
  | none | number | bool | function => exact sequence.elim

/-- An index means a position in the items. -/
theorem element_eq_items (indexed : source.IsIndexed) (index : Value) :
    heap.element source index =
      (indexPosition index (heap.items source).length).map fun position =>
        (heap.items source)[position]?.getD .none := by
  cases source with
  | array reference =>
      simp only [element, items, Array.length_toList, Array.getElem?_toList]
      cases indexPosition index (heap.array reference).size <;> rfl
  | text text =>
      simp only [element, items, List.length_map]
      cases found : indexPosition index text.toList.length with
      | error cause => rfl
      | ok position =>
          have inside := lt_of_indexPosition found
          simp [Except.map, inside, Char.toString]
  | none | number | bool | record | function => exact indexed.elim

/-!
## What one heap tells
-/

theorem element_of_position (indexed : source.IsIndexed) {position : Nat} {item : Value}
    {number : Float} (found : (heap.items source)[position]? = some item)
    (index : integer? number = some (position : Int) ∨
      integer? number = some (position - (heap.items source).length : Int)) :
    heap.element source (.number number) = .ok item := by
  have inside := (List.getElem?_eq_some_iff.mp found).1
  have meant : indexPosition (.number number) (heap.items source).length = .ok position := by
    refine indexPosition_eq_ok_iff.mpr ⟨inside, number, ?_⟩
    rcases index with integer | integer
    · exact ⟨_, rfl, integer, .inl rfl⟩
    · exact ⟨_, rfl, integer, .inr rfl⟩
  rw [element_eq_items indexed, meant]
  simp [Except.map, found]

theorem element_outside (indexed : source.IsIndexed) {number : Float} {whole : Int}
    (integer : integer? number = some whole)
    (outside : whole < -(heap.items source).length ∨ (heap.items source).length ≤ whole) :
    heap.element source (.number number) =
      .error (.indexOutOfRange (.number number) (heap.items source).length) := by
  rw [element_eq_items indexed, indexPosition_of_integer integer, if_neg (by omega)]
  rfl

theorem join_characters (characters : List Char) :
    String.join (characters.map Char.toString) = String.ofList characters := by
  induction characters with
  | nil => rfl
  | cons first rest ih =>
      rw [List.map_cons, String.join_cons, ih, String.ofList_cons]
      rfl

theorem contains_own {reference : RecordRef} {name : String}
    (member : name ∈ (heap.record reference).names) :
    heap.contains (.record reference) (.text name) = some (.ok true) ∧
      ∃ value, (heap.record reference).get? name = some value ∧
        heap.element (.record reference) (.text name) = .ok value := by
  obtain ⟨value, held⟩ := Option.isSome_iff_exists.mp (Record.mem_names.mp member)
  have found : heap.lookup reference name = some value := lookupWithin_own inheritanceLimit held
  refine ⟨?_, value, held, ?_⟩
  · simp [contains, found]
  · simp [element, found]

theorem shows_items (sequence : source.IsSequence) : heap.Shows source (heap.items source) where
  counted := lengthOf_eq_items sequence
  native := by
    intro session receiver same
    subst same
    simp only [Session.runNative, List.head?_cons, Option.getD_some, lengthOf_eq_items sequence,
      Except.map]
  indexed := by
    intro indexed position item number found index
    exact element_of_position indexed found index
  outside := by
    intro indexed number whole integer outside
    exact element_outside indexed integer outside
  characters := by
    intro text same
    subst same
    refine ⟨text.toList.map Char.toString, ?_, ?_, ?_⟩
    · simp [items]
    · intro part member
      obtain ⟨character, _, rfl⟩ := List.mem_map.mp member
      exact String.length_singleton
    · rw [join_characters, String.ofList_toList]
  members := by
    intro reference same
    subst same
    refine ⟨_, rfl, (heap.record reference).ordered, ?_, ?_⟩
    · intro name
      exact Record.mem_names
    · intro name member
      exact contains_own member
  contained := by
    intro reference same sought
    subst same
    exact heap.contains_array reference sought

end Heap

namespace Iteration

/-- The cursor after it has been asked for its next item so often, each time in the heap of that
moment. -/
def asked (heaps : Nat → Heap) (cursor : Iteration) : Nat → Iteration
  | 0 => cursor
  | count + 1 =>
      let reached := asked heaps cursor count
      match reached.next (heaps count) with
      | some (_, behind) => behind
      | none => reached

/-- What the cursor gives when it is asked once more. -/
def answer (heaps : Nat → Heap) (cursor : Iteration) (count : Nat) : Option Value :=
  ((cursor.asked heaps count).next (heaps count)).map Prod.fst

variable {heaps : Nat → Heap} {source : Value} {items : List Value}

theorem start_of_isSequence (sequence : source.IsSequence) : start source = .ok ⟨source, 0⟩ := by
  cases source with
  | array | text | record => rfl
  | none | number | bool | function => exact sequence.elim

/-- One step of a cursor over items that stay as they are. -/
theorem next_eq {heap : Heap} (same : heap.items source = items) (position : Nat) :
    next heap ⟨source, position⟩ =
      items[position]?.map fun item => (item, ⟨source, position + 1⟩) := by
  rw [next, Heap.itemAt_eq_items, same]

section

variable (same : ∀ time, (heaps time).items source = items)

include same

/-- The cursor counts the items that it has given, and stays at the end. -/
theorem asked_eq (count : Nat) :
    asked heaps ⟨source, 0⟩ count = ⟨source, min count items.length⟩ := by
  induction count with
  | zero => simp [asked]
  | succ count ih =>
      simp only [asked, ih, next_eq (same count)]
      rcases Nat.lt_or_ge count items.length with inside | behind
      · rw [Nat.min_eq_left (Nat.le_of_lt inside), List.getElem?_eq_getElem inside,
          Nat.min_eq_left inside]
        rfl
      · rw [Nat.min_eq_right behind, List.getElem?_eq_none (Nat.le_refl _),
          Nat.min_eq_right (Nat.le_succ_of_le behind)]
        rfl

theorem answer_eq (count : Nat) : answer heaps ⟨source, 0⟩ count = items[count]? := by
  rw [answer, asked_eq same, next_eq (same count), Option.map_map]
  rcases Nat.lt_or_ge count items.length with inside | behind
  · rw [Nat.min_eq_left (Nat.le_of_lt inside)]
    exact Option.map_id'
  · rw [Nat.min_eq_right behind, List.getElem?_eq_none (Nat.le_refl _),
      List.getElem?_eq_none behind]
    rfl

end

/-- For a sequence that is not changed meanwhile there is one list of items. A cursor gives them
one after the other, and then nothing for ever; its position counts those that it has given. At
any time the native length is their number, an index from either end gives the item at its
position, and any other integer is out of range. The characters of a text make up the text again;
the items of a record are the names of its own members in strictly increasing order, which are in
the record and index it; and a value that is sought in an array is there exactly if an item is
equal to it, or else the search comes to a comparison that goes on for ever, in front of every
item that is equal, and has no answer.

Integers below 2 to the power of 53 are indices as they are written. If the length is below this
bound, then differences from the length are indices as they are computed, and a position is the
same when it is computed in doubles. -/
theorem views_agree {source : Value} (sequence : source.IsSequence) {heaps : Nat → Heap}
    (kept : ∀ time, (heaps 0).Keeps (heaps time) source) :
    ∃ (cursor : Iteration) (items : List Value), start source = .ok cursor ∧
      (∀ count, (cursor.asked heaps count).position = min count items.length ∧
        cursor.answer heaps count = items[count]?) ∧
      (∀ time, (heaps time).Shows source items) ∧
      (∀ whole : Int, whole.natAbs < 2 ^ 53 → integer? (Float.ofInt whole) = some whole) ∧
      (items.length < 2 ^ 53 →
        (∀ number, roundedPosition number items.length =
          indexPosition (.number number) items.length) ∧
        ∀ position < items.length, integer? (Float.ofNat position) = some (position : Int) ∧
          integer? (Float.ofNat position - Float.ofNat items.length) =
            some (position - items.length : Int)) := by
  have same (time : Nat) : (heaps time).items source = (heaps 0).items source :=
    Heap.items_of_keeps (kept time)
  refine ⟨⟨source, 0⟩, (heaps 0).items source, start_of_isSequence sequence, ?_, ?_, ?_, ?_⟩
  · intro count
    exact ⟨congrArg position (asked_eq same count), answer_eq same count⟩
  · intro time
    rw [← same time]
    exact Heap.shows_items sequence
  · intro whole small
    exact (isWhole_ofInt small).integer?
  · intro small
    exact ⟨roundedPosition_eq small, fun position inside => integer?_indices small inside⟩

/-- The array of two items stays as it is, while another array grows. -/
theorem views_agree_while_another_array_grows :
    ∃ (heaps : Nat → Heap) (cursor : Iteration), (∀ time, ((heaps time).array ⟨1⟩).size = time) ∧
      start (.array ⟨0⟩) = .ok cursor ∧ (cursor.asked heaps 5).position = 2 ∧
      cursor.answer heaps 1 = some (.bool false) ∧ cursor.answer heaps 5 = none ∧
      (heaps 7).element (.array ⟨0⟩) (.number (Float.ofInt (-1))) = .ok (.bool false) := by
  let heaps (time : Nat) : Heap :=
    ⟨#[#[.bool true, .bool false], Array.replicate time .none], #[], #[]⟩
  have kept (time : Nat) : (heaps 0).Keeps (heaps time) (.array ⟨0⟩) := rfl
  obtain ⟨cursor, items, begun, asked, shows, integers, _⟩ :=
    views_agree (show (Value.array ⟨0⟩).IsSequence from trivial) kept
  have length : 2 = items.length := Except.ok.inj (shows 7).counted
  have last : cursor.answer heaps 1 = some (.bool false) := by
    cases begun
    rfl
  refine ⟨heaps, cursor, ?_, begun, ?_, last, ?_, ?_⟩
  · intro time
    exact Array.size_replicate
  · rw [(asked 5).1, ← length]
    decide
  · rw [(asked 5).2, List.getElem?_eq_none (by omega)]
  · refine (shows 7).indexed trivial 1 _ _ ((asked 1).2.symm.trans last) (.inr ?_)
    rw [integers (-1) (by decide), ← length]
    rfl

end Iteration

namespace Session

/-- The second item is equal to what is sought, and the first one is compared with it for ever. So
the search never comes to an answer, and the script never prints one. -/
theorem membership_never_answered :
    ∃ script started searching searchingStarted after sought sequence,
      Script.ofSource "a = [[0]]\na[0][0] = a\nv = [a[0], a]\n" = .ok script ∧
      (Session.new none).run script = .ok started ∧ execute 100 started = (.value (), after) ∧
      (after.heap.record after.globals).get? "a" = some sought ∧
      (after.heap.record after.globals).get? "v" = some sequence ∧
      (∃ item, after.heap.element sequence (.number 1) = .ok item ∧
        after.heap.equal? item sought = some true) ∧
      after.heap.contains sequence sought = none ∧
      Script.ofSource "a = [[0]]\na[0][0] = a\nv = [a[0], a]\nprint a in v\n" = .ok searching ∧
      (Session.new none).run searching = .ok searchingStarted ∧
      ∀ turns, (execute turns searchingStarted).1 = .unfinished := by
  have hanging : ((Script.ofSource "a = [[0]]\na[0][0] = a\nv = [a[0], a]\nprint a in v\n"
      ).toOption.any fun script =>
        ((Session.new none).run script).toOption.any fun started => hangs 100 started) = true := by
    decide +kernel
  have passed : ((Script.ofSource "a = [[0]]\na[0][0] = a\nv = [a[0], a]\n").toOption.any
      fun script => ((Session.new none).run script).toOption.any fun started =>
        returns (execute 100 started) fun _ after =>
          ((after.heap.record after.globals).get? "a").any fun sought =>
            ((after.heap.record after.globals).get? "v").any fun sequence =>
              ((after.heap.element sequence (.number 1)).toOption.any fun item =>
                after.heap.equal? item sought == some true) &&
              (after.heap.contains sequence sought).isNone) = true := by decide +kernel
  obtain ⟨script, started, accepted, begun, passed⟩ := eq_of_runs passed
  obtain ⟨_, after, ended, passed⟩ := eq_of_returns passed
  obtain ⟨sought, soughtBound, passed⟩ := (Option.any_eq_true _ _).mp passed
  obtain ⟨sequence, sequenceBound, passed⟩ := (Option.any_eq_true _ _).mp passed
  obtain ⟨found, endless⟩ := Bool.and_eq_true_iff.mp passed
  obtain ⟨item, held, same⟩ := ok_of_any found
  obtain ⟨searching, searchingStarted, searchingAccepted, searchingBegun, hanging⟩ :=
    eq_of_runs hanging
  exact ⟨script, started, searching, searchingStarted, after, sought, sequence, accepted, begun,
    ended, soughtBound, sequenceBound, ⟨item, held, eq_of_beq same⟩,
    Option.isNone_iff_eq_none.mp endless, searchingAccepted, searchingBegun,
    unfinished_of_hangs hanging⟩

end Session

end ScriptEngine
