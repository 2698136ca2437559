import ScriptEngine.Proofs.Value.Inheritance
import ScriptEngine.Proofs.Value.Positions

/-!
# Writing elements

An element is written at a place: at a position of an array, or under a name in a record. An
index means the same place for reading and for writing, with one difference: what a record
inherits is read, but never written. A write changes what is stored at its place, and nothing
else in the heap (`Heap.stored_store`). Heaps that store the same at all places are the same
(`Heap.eq_of_stored`), and so writes to different places can be exchanged, and a write makes an
earlier one to its place undone.
-/

set_option autoImplicit false

namespace ScriptEngine

open Binary64

/-- Where a value is stored: at a position of an array, or under a name in a record. -/
inductive StoragePlace where
  | item (reference : ArrayRef) (position : Nat)
  | member (reference : RecordRef) (name : String)
deriving DecidableEq

/-!
## Records with the same members
-/

namespace Record

/-- A name in front of all others is not bound. -/
theorem lookup_eq_none_of_lt {name : String} {members : List (String × Value)}
    (front : ∀ key ∈ members.map Prod.fst, name < key) : members.lookup name = none := by
  refine List.lookup_eq_none_iff.mpr ?_
  intro entry member
  have before := front entry.1 (List.mem_map_of_mem member)
  simp [ne_of_lt before]

theorem first_le_of_lookup {name first : String} {held value : Value}
    {rest : List (String × Value)}
    (ordered : (((first, held) :: rest).map Prod.fst).Pairwise (· < ·))
    (found : ((first, held) :: rest).lookup name = some value) : first ≤ name := by
  refine le_of_not_gt fun before => ?_
  have missing : ((first, held) :: rest).lookup name = none := by
    refine lookup_eq_none_of_lt (List.forall_mem_cons.mpr ⟨before, ?_⟩)
    intro key member
    exact lt_trans before ((List.pairwise_cons.mp ordered).1 key member)
  rw [found] at missing
  cases missing

theorem eq_of_lookup {members others : List (String × Value)}
    (ordered : (members.map Prod.fst).Pairwise (· < ·))
    (othersOrdered : (others.map Prod.fst).Pairwise (· < ·))
    (same : ∀ name, members.lookup name = others.lookup name) : members = others := by
  induction members generalizing others with
  | nil =>
      cases others with
      | nil => rfl
      | cons entry rest =>
          have found := same entry.1
          rw [List.lookup_cons_self] at found
          cases found
  | cons entry rest ih =>
      cases others with
      | nil =>
          have found := same entry.1
          rw [List.lookup_cons_self] at found
          cases found
      | cons otherEntry otherRest =>
          obtain ⟨name, held⟩ := entry
          obtain ⟨other, otherHeld⟩ := otherEntry
          obtain rfl : name = other := le_antisymm
            (first_le_of_lookup ordered ((same other).trans List.lookup_cons_self))
            (first_le_of_lookup othersOrdered ((same name).symm.trans List.lookup_cons_self))
          obtain ⟨front, restOrdered⟩ := List.pairwise_cons.mp ordered
          obtain ⟨otherFront, otherOrdered⟩ := List.pairwise_cons.mp othersOrdered
          have value := same name
          rw [List.lookup_cons_self, List.lookup_cons_self] at value
          cases value
          congr 1
          refine ih restOrdered otherOrdered ?_
          intro key
          by_cases this : key = name
          · subst this
            rw [lookup_eq_none_of_lt front, lookup_eq_none_of_lt otherFront]
          · have later := same key
            rwa [List.lookup_cons, List.lookup_cons, beq_false_of_ne this] at later

theorem eq_of_get? {record other : Record} (same : ∀ name, record.get? name = other.get? name) :
    record = other := by
  obtain ⟨members, ordered⟩ := record
  obtain ⟨others, othersOrdered⟩ := other
  obtain rfl := eq_of_lookup ordered othersOrdered same
  rfl

end Record

namespace Heap

/-- The place that an index means in an array or in a record. -/
def place (heap : Heap) (object index : Value) : Except RuntimeCause StoragePlace :=
  match object, index with
  | .array reference, _ =>
      (indexPosition index (heap.array reference).size).map (.item reference)
  | .record reference, .text name => .ok (.member reference name)
  | object, _ => .error (.nonIndexable object)

/-- What is stored at a place. Inherited members are not. -/
def stored (heap : Heap) : StoragePlace → Option Value
  | .item reference position => (heap.array reference)[position]?
  | .member reference name => (heap.record reference).get? name

def store (heap : Heap) (place : StoragePlace) (value : Value) : Heap :=
  match place with
  | .item reference position => heap.setItem reference position value
  | .member reference name => heap.setMember reference name value

/-- Something can be stored at the place. -/
def HasPlace (heap : Heap) : StoragePlace → Prop
  | .item reference position => position < (heap.array reference).size
  | .member reference _ => reference.address < heap.records.size

/-- The value is an array, or a record of the heap. -/
def IsContainer (heap : Heap) : Value → Prop
  | .array _ => True
  | .record reference => reference.address < heap.records.size
  | .none | .number _ | .text _ | .bool _ | .function _ => False

/-- The heaps have the same objects, but for what is stored in their arrays and records. -/
structure SameShape (heap other : Heap) : Prop where
  arrays : other.arrays.size = heap.arrays.size
  lengths : ∀ reference, (other.array reference).size = (heap.array reference).size
  records : other.records.size = heap.records.size
  functions : other.functions = heap.functions

/-- What a write to a place leaves behind. -/
structure Written (heap : Heap) (place : StoragePlace) (value : Value) (after : Heap) : Prop where
  reads : ∀ object index, heap.place object index = .ok place →
    after.element object index = .ok value
  stored : ∀ other, after.stored other = if other = place then some value else heap.stored other
  shape : heap.SameShape after
  arrays : ∀ reference, (∀ position, place ≠ .item reference position) →
    after.array reference = heap.array reference
  records : ∀ reference, (∀ name, place ≠ .member reference name) →
    after.record reference = heap.record reference
  items : ∀ reference index, heap.place (.array reference) index ≠ .ok place →
    after.element (.array reference) index = heap.element (.array reference) index
  /-- What is inherited stays the same too, if no link to a parent is written. -/
  lookups : ∀ changed name, place = .member changed name → name ≠ superMember →
    ∀ reference key, key ≠ name → after.lookup reference key = heap.lookup reference key
  overridden : ∀ object index again, heap.place object index = .ok place →
    after.setElement object index again = heap.setElement object index again
  commutes : ∀ object index other changed, heap.IsContainer object →
    heap.place object index ≠ .ok place → heap.setElement object index other = .ok changed →
    ∃ both, after.setElement object index other = .ok both ∧
      ∀ first firstIndex, heap.place first firstIndex = .ok place →
        changed.setElement first firstIndex value = .ok both

variable {heap other : Heap} {place : StoragePlace} {object index value : Value}

/-!
## What is stored determines the heap
-/

theorem eq_of_stored (shape : heap.SameShape other)
    (same : ∀ place, other.stored place = heap.stored place) : other = heap := by
  have arrays : other.arrays = heap.arrays := by
    refine Array.ext shape.arrays ?_
    intro address inside insideToo
    have items : other.array ⟨address⟩ = heap.array ⟨address⟩ := by
      refine Array.ext_getElem? ?_
      intro position
      exact same (.item ⟨address⟩ position)
    simpa [array, inside, insideToo] using items
  have records : other.records = heap.records := by
    refine Array.ext shape.records ?_
    intro address inside insideToo
    have members : other.record ⟨address⟩ = heap.record ⟨address⟩ := by
      refine Record.eq_of_get? ?_
      intro name
      exact same (.member ⟨address⟩ name)
    simpa [record, inside, insideToo] using members
  obtain ⟨_, _, _⟩ := heap
  obtain ⟨_, _, _⟩ := other
  obtain rfl := arrays
  obtain rfl := records
  obtain rfl := shape.functions
  rfl

namespace SameShape

theorem symm (shape : heap.SameShape other) : other.SameShape heap :=
  ⟨shape.arrays.symm, fun reference => (shape.lengths reference).symm, shape.records.symm,
    shape.functions.symm⟩

theorem trans {third : Heap} (early : heap.SameShape other) (late : other.SameShape third) :
    heap.SameShape third :=
  ⟨late.arrays.trans early.arrays,
    fun reference => (late.lengths reference).trans (early.lengths reference),
    late.records.trans early.records, late.functions.trans early.functions⟩

/-- The places are the same. -/
theorem place_eq (shape : heap.SameShape other) (object index : Value) :
    other.place object index = heap.place object index := by
  unfold place
  split
  · next reference => rw [shape.lengths reference]
  · rfl
  · rfl

theorem hasPlace (shape : heap.SameShape other) (there : heap.HasPlace place) :
    other.HasPlace place := by
  cases place with
  | item reference position => exact Nat.lt_of_lt_of_eq there (shape.lengths reference).symm
  | member reference name => exact Nat.lt_of_lt_of_eq there shape.records.symm

end SameShape

theorem sameShape_store (heap : Heap) (place : StoragePlace) (value : Value) :
    heap.SameShape (heap.store place value) := by
  cases place with
  | item reference position =>
      refine ⟨?_, ?_, rfl, rfl⟩
      · simp [store, setItem]
      · intro read
        rw [store, array_setItem]
        split
        · exact Array.size_setIfInBounds
        · rfl
  | member reference name =>
      refine ⟨rfl, fun _ => rfl, ?_, rfl⟩
      simp [store, setMember, modifyRecord]

theorem sameShape_eraseMember (heap : Heap) (reference : RecordRef) (name : String) :
    heap.SameShape (heap.eraseMember reference name) := by
  refine ⟨rfl, fun _ => rfl, ?_, rfl⟩
  simp [eraseMember, modifyRecord]

/-- A value is stored at its place, and nowhere else. -/
theorem stored_store (there : heap.HasPlace place) (value : Value) (read : StoragePlace) :
    (heap.store place value).stored read =
      if read = place then some value else heap.stored read := by
  cases place with
  | item reference position =>
      cases read with
      | item readReference readPosition =>
          simp only [store, stored, array_setItem, StoragePlace.item.injEq]
          by_cases same : readReference = reference
          · subst same
            have inside : position < (heap.array readReference).size := there
            simp only [true_and, if_true, Array.getElem?_setIfInBounds]
            split <;> split <;> grind
          · simp [same]
      | member => rfl
  | member reference name =>
      cases read with
      | item => rfl
      | member readReference key =>
          simp only [store, stored, get?_record_setMember heap _ _ _ _ _ there,
            StoragePlace.member.injEq]

theorem stored_eraseMember {reference : RecordRef} (present : reference.address < heap.records.size)
    (name : String) (read : StoragePlace) :
    (heap.eraseMember reference name).stored read =
      if read = .member reference name then none else heap.stored read := by
  cases read with
  | item => rfl
  | member readReference key =>
      simp only [eraseMember, stored, record_modifyRecord heap _ _ _ present,
        StoragePlace.member.injEq]
      by_cases same : readReference = reference
      · simp [same, Record.get?_erase]
      · simp [same]

/-!
## Two writes
-/

/-- A second write to a place undoes the first one. -/
theorem store_store (there : heap.HasPlace place) (first second : Value) :
    (heap.store place first).store place second = heap.store place second := by
  have shape := sameShape_store heap place first
  have still := shape.hasPlace there
  refine eq_of_stored ((sameShape_store heap place second).symm.trans
    (shape.trans (sameShape_store _ place second))) ?_
  intro read
  rw [stored_store still, stored_store there, stored_store there]
  split <;> rfl

/-- Writes to different places can be exchanged. -/
theorem store_comm {otherPlace : StoragePlace} (there : heap.HasPlace place)
    (otherThere : heap.HasPlace otherPlace) (different : otherPlace ≠ place)
    (first second : Value) :
    (heap.store place first).store otherPlace second =
      (heap.store otherPlace second).store place first := by
  have shape := sameShape_store heap place first
  have otherShape := sameShape_store heap otherPlace second
  refine eq_of_stored ((otherShape.trans (sameShape_store _ place first)).symm.trans
    (shape.trans (sameShape_store _ otherPlace second))) ?_
  intro read
  rw [stored_store (shape.hasPlace otherThere), stored_store there,
    stored_store (otherShape.hasPlace there), stored_store otherThere]
  by_cases here : read = place
  · subst here
    simp [different.symm]
  · simp [here]

/-- Removing a member undoes a write to it. -/
theorem eraseMember_store {reference : RecordRef}
    (present : reference.address < heap.records.size) (name : String) (value : Value) :
    (heap.store (.member reference name) value).eraseMember reference name =
      heap.eraseMember reference name := by
  have there : heap.HasPlace (.member reference name) := present
  have shape := sameShape_store heap (.member reference name) value
  have still : reference.address < (heap.store (.member reference name) value).records.size :=
    Nat.lt_of_lt_of_eq present shape.records.symm
  refine eq_of_stored ((sameShape_eraseMember heap reference name).symm.trans
    (shape.trans (sameShape_eraseMember _ reference name))) ?_
  intro read
  rw [stored_eraseMember still, stored_eraseMember present, stored_store there]
  split <;> rfl

theorem eraseMember_of_missing {reference : RecordRef}
    (present : reference.address < heap.records.size) {name : String}
    (missing : (heap.record reference).get? name = none) :
    heap.eraseMember reference name = heap := by
  refine eq_of_stored (sameShape_eraseMember heap reference name) ?_
  intro read
  rw [stored_eraseMember present]
  split
  · next here =>
      rw [here]
      exact missing.symm
  · rfl

/-!
## Elements and places
-/

theorem setElement_eq_store (heap : Heap) (object index value : Value) :
    heap.setElement object index value =
      (heap.place object index).map fun place => heap.store place value := by
  cases object with
  | array reference =>
      simp only [setElement, place]
      cases indexPosition index (heap.array reference).size <;> rfl
  | record reference => cases index <;> rfl
  | none | number | text | bool | function => rfl

theorem element_array_eq_stored (heap : Heap) (reference : ArrayRef) (index : Value) :
    heap.element (.array reference) index =
      (heap.place (.array reference) index).map fun place => (heap.stored place).getD .none := by
  simp only [element, place]
  cases indexPosition index (heap.array reference).size <;> rfl

theorem hasPlace_of_place (container : heap.IsContainer object)
    (found : heap.place object index = .ok place) : heap.HasPlace place := by
  unfold Heap.place at found
  split at found
  · next reference =>
      cases position : indexPosition index (heap.array reference).size with
      | error cause =>
          rw [position] at found
          cases found
      | ok position' =>
          rw [position] at found
          cases found
          exact lt_of_indexPosition position
  · cases found
    exact container
  · cases found

/-- What is stored at a place is read there. -/
theorem element_of_stored (found : heap.place object index = .ok place)
    (held : heap.stored place = some value) : heap.element object index = .ok value := by
  cases object with
  | array reference =>
      rw [element_array_eq_stored, found, Except.map, held]
      rfl
  | record reference =>
      cases index with
      | text name =>
          cases found
          have own : heap.lookup reference name = some value :=
            lookupWithin_own inheritanceLimit held
          simp only [element, own]
      | none | number | bool | array | record | function => cases found
  | none | number | text | bool | function => cases found

/-- Heaps with the same own members of a name and the same links find the same member. -/
theorem lookupWithin_congr {key : String}
    (own : ∀ reference, (other.record reference).get? key = (heap.record reference).get? key)
    (parents : ∀ reference, other.supers reference = heap.supers reference) (links : Nat)
    (reference : RecordRef) :
    other.lookupWithin key links reference = heap.lookupWithin key links reference := by
  induction links generalizing reference with
  | zero =>
      cases held : (heap.record reference).get? key with
      | some value => rw [lookupWithin_own _ ((own _).trans held), lookupWithin_own _ held]
      | none => rw [lookupWithin_zero ((own _).trans held), lookupWithin_zero held]
  | succ links ih =>
      cases held : (heap.record reference).get? key with
      | some value => rw [lookupWithin_own _ ((own _).trans held), lookupWithin_own _ held]
      | none =>
          rw [lookupWithin_succ links ((own _).trans held), lookupWithin_succ links held, parents,
            funext ih]

/-- The way to an inherited member is the same unless a link is written. -/
theorem lookup_store {changed : RecordRef} {name : String} (plain : name ≠ superMember)
    (present : changed.address < heap.records.size) (value : Value) {key : String}
    (different : key ≠ name) (reference : RecordRef) :
    (heap.store (.member changed name) value).lookup reference key =
      heap.lookup reference key := by
  have kept {other : String} (apart : other ≠ name) (read : RecordRef) :
      ((heap.store (.member changed name) value).record read).get? other =
        (heap.record read).get? other := by
    have there : heap.HasPlace (.member changed name) := present
    have stored := stored_store there value (.member read other)
    rwa [if_neg (by simp [apart])] at stored
  refine lookupWithin_congr (kept different) ?_ inheritanceLimit reference
  intro read
  simp only [supers, kept plain.symm]
  rfl

/-!
## What a write leaves behind
-/

theorem array_eq_of_stored {reference : ArrayRef}
    (same : ∀ position, other.stored (.item reference position) =
      heap.stored (.item reference position)) :
    other.array reference = heap.array reference :=
  Array.ext_getElem? same

theorem record_eq_of_stored {reference : RecordRef}
    (same : ∀ name, other.stored (.member reference name) = heap.stored (.member reference name)) :
    other.record reference = heap.record reference :=
  Record.eq_of_get? same

theorem written_store (there : heap.HasPlace place) (value : Value) :
    heap.Written place value (heap.store place value) where
  reads := by
    intro object index found
    have shape := sameShape_store heap place value
    refine element_of_stored ((shape.place_eq object index).trans found) ?_
    rw [stored_store there, if_pos rfl]
  stored := stored_store there value
  shape := sameShape_store heap place value
  arrays := by
    intro reference apart
    refine array_eq_of_stored fun position => ?_
    rw [stored_store there, if_neg (apart position).symm]
  records := by
    intro reference apart
    refine record_eq_of_stored fun name => ?_
    rw [stored_store there, if_neg (apart name).symm]
  items := by
    intro reference index apart
    rw [element_array_eq_stored, element_array_eq_stored,
      (sameShape_store heap place value).place_eq]
    cases found : heap.place (.array reference) index with
    | error cause => rfl
    | ok read =>
        have different : read ≠ place := by
          intro same
          exact apart (found.trans (congrArg Except.ok same))
        simp only [Except.map, stored_store there, if_neg different]
  lookups := by
    intro changed name same plain reference key different
    subst same
    exact lookup_store plain there value different reference
  overridden := by
    intro object index again found
    rw [setElement_eq_store, setElement_eq_store, (sameShape_store heap place value).place_eq,
      found]
    exact congrArg Except.ok (store_store there value again)
  commutes := by
    intro object index other changed container apart written
    rw [setElement_eq_store] at written
    cases found : heap.place object index with
    | error cause =>
        rw [found] at written
        cases written
    | ok otherPlace =>
        rw [found] at written
        cases written
        have different : otherPlace ≠ place := by
          intro same
          exact apart (found.trans (congrArg Except.ok same))
        refine ⟨(heap.store place value).store otherPlace other, ?_, ?_⟩
        · rw [setElement_eq_store, (sameShape_store heap place value).place_eq, found]
          rfl
        · intro first firstIndex firstFound
          rw [setElement_eq_store, (sameShape_store heap otherPlace other).place_eq, firstFound,
            store_comm there (hasPlace_of_place container found) different]
          rfl

theorem place_array_eq_ok_iff {reference : ArrayRef} {position : Nat} :
    heap.place (.array reference) index = .ok (.item reference position) ↔
      indexPosition index (heap.array reference).size = .ok position := by
  simp only [Heap.place]
  cases indexPosition index (heap.array reference).size with
  | error cause => simp [Except.map]
  | ok found => simp [Except.map]

/-- Writing into an array succeeds and fails as reading does. -/
theorem setElement_array_eq_error_iff {reference : ArrayRef} {cause : RuntimeCause} :
    heap.setElement (.array reference) index value = .error cause ↔
      heap.element (.array reference) index = .error cause := by
  rw [setElement_eq_store, element_array_eq_stored]
  cases heap.place (.array reference) index with
  | error cause => simp [Except.map]
  | ok place => simp [Except.map]

/-- A write that succeeds is at the place that the index means. It leaves everything else as it
was, is exchangeable with writes to other places, and is undone by the next write to its place.

In an array, writing fails exactly where reading does, with the same error. An index means a
position within the bounds, whatever number it is, and each position has two indices. Below a
length of 2 to the power of 53 this is the position that doubles give.

In a record, a name can always be written. The value hides what was inherited, until the member is
removed; then the heap is what it would be without the write. -/
theorem element_writes {object : Value} (container : heap.IsContainer object) :
    (∀ index value after, heap.setElement object index value = .ok after →
      ∃ place, heap.place object index = .ok place ∧ heap.HasPlace place ∧
        heap.Written place value after) ∧
    (∀ reference, object = .array reference →
      (∀ index value cause, heap.setElement object index value = .error cause ↔
        heap.element object index = .error cause) ∧
      (∀ index position, heap.place object index = .ok (.item reference position) ↔
        position < (heap.array reference).size ∧ ∃ number whole, index = .number number ∧
          integer? number = some whole ∧
          (whole = position ∨ whole = position - ((heap.array reference).size : Int))) ∧
      ((heap.array reference).size < 2 ^ 53 →
        (∀ number, roundedPosition number (heap.array reference).size =
          indexPosition (.number number) (heap.array reference).size) ∧
        ∀ position < (heap.array reference).size,
          integer? (Float.ofNat position) = some (position : Int) ∧
          integer? (Float.ofNat position - Float.ofNat (heap.array reference).size) =
            some (position - (heap.array reference).size : Int))) ∧
    ∀ reference, object = .record reference → ∀ name value, ∃ after,
      heap.setElement object (.text name) value = .ok after ∧
      heap.place object (.text name) = .ok (.member reference name) ∧
      after.lookup reference name = some value ∧
      after.eraseMember reference name = heap.eraseMember reference name ∧
      ((heap.record reference).get? name = none → after.eraseMember reference name = heap) := by
  refine ⟨?_, ?_, ?_⟩
  · intro index value after written
    rw [setElement_eq_store] at written
    cases found : heap.place object index with
    | error cause =>
        rw [found] at written
        cases written
    | ok place =>
        rw [found] at written
        cases written
        have there := hasPlace_of_place container found
        exact ⟨place, rfl, there, written_store there value⟩
  · intro reference same
    subst same
    refine ⟨?_, ?_, ?_⟩
    · intro index value cause
      exact setElement_array_eq_error_iff
    · intro index position
      exact place_array_eq_ok_iff.trans indexPosition_eq_ok_iff
    · intro small
      exact ⟨roundedPosition_eq small, fun position inside => integer?_indices small inside⟩
  · intro reference same name value
    subst same
    have there : heap.HasPlace (.member reference name) := container
    have erased := eraseMember_store container name value
    refine ⟨heap.store (.member reference name) value, rfl, rfl, ?_, erased, ?_⟩
    · refine lookupWithin_own inheritanceLimit ?_
      have stored := stored_store there value (.member reference name)
      rwa [if_pos rfl] at stored
    · intro missing
      exact erased.trans (eraseMember_of_missing container missing)

/-- A record hides a member that it inherits, and shows it again. -/
theorem element_writes_hide_inherited_member :
    ∃ (heap after : Heap) (parent child : RecordRef), parent ≠ child ∧
      heap.lookup child "x" = some (.bool true) ∧
      heap.setElement (.record child) (.text "x") (.bool false) = .ok after ∧
      after.lookup child "x" = some (.bool false) ∧
      after.record parent = heap.record parent ∧ after.eraseMember child "x" = heap := by
  let heap : Heap := ⟨#[],
    #[Record.empty.insert "x" (.bool true), Record.empty.insert superMember (.record ⟨0⟩)], #[]⟩
  have present : heap.IsContainer (.record ⟨1⟩) := show 1 < 2 by decide
  have own : (heap.record ⟨0⟩).get? "x" = some (.bool true) := rfl
  have missing : (heap.record ⟨1⟩).get? "x" = none := rfl
  have inherited : heap.lookup ⟨1⟩ "x" = some (.bool true) := by
    have parents : heap.supers ⟨1⟩ = [⟨0⟩] := rfl
    rw [lookup, inheritanceLimit, lookupWithin_succ 31 missing, parents, List.findSome?_cons,
      lookupWithin_own 31 own]
  obtain ⟨writes, _, records⟩ := element_writes present
  obtain ⟨after, written, place, hides, _, erased⟩ := records ⟨1⟩ rfl "x" (.bool false)
  obtain ⟨_, found, _, kept⟩ := writes _ _ _ written
  rw [place] at found
  cases found
  exact ⟨heap, after, ⟨0⟩, ⟨1⟩, by decide, inherited, written, hides,
    kept.records ⟨0⟩ (by simp), erased missing⟩

end Heap

end ScriptEngine
