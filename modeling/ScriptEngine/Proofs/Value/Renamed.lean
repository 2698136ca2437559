import ScriptEngine.Proofs.Machine.Failing
import ScriptEngine.Proofs.Value.Replica

/-!
# Heaps up to the names of new arrays

Two heaps may differ in nothing but how many arrays were made, and when: then some arrays of the
one have other names in the other, and some are in only one of them. Where nothing refers to the
arrays that are in only one of them, this makes no difference. So heaps that are alike stay so
when each of them gets more arrays that nothing refers to yet, as long as the objects that are
made next stand for each other from now on (`Heap.Alike.rebase`).
-/

set_option autoImplicit false

namespace ScriptEngine

open Relator

/-- All records and functions stand for themselves, and so do the arrays that the heap has. -/
structure Pairing.Fixes (pairing : Pairing) (heap : Heap) : Prop where
  arrays : ∀ array : ArrayRef, array.address < heap.arrays.size → pairing.arrays array array
  records : ∀ record, pairing.records record record
  functions : ∀ function, pairing.functions function function

/-- What stands for each other still does so, if the arrays in question are in the heap. -/
structure Pairing.Carries (pairing later : Pairing) (heap : Heap) : Prop where
  arrays : ∀ array₁ array₂, pairing.arrays array₁ array₂ →
    array₁.address < heap.arrays.size → later.arrays array₁ array₂
  records : ∀ record₁ record₂, pairing.records record₁ record₂ → later.records record₁ record₂
  functions : ∀ function₁ function₂, pairing.functions function₁ function₂ →
    later.functions function₁ function₂

/-- The two heaps are the same, but for the names of arrays that the first heap, `old`, does not
have. -/
def Heap.SameUpToNew (old heap₁ heap₂ : Heap) : Prop :=
  ∃ pairing : Pairing, pairing.Fixes old ∧ heap₁.SameContents pairing heap₂

/-- A member is found under its name. -/
theorem Record.get?_of_mem {record : Record} {name : String} {value : Value}
    (member : (name, value) ∈ record.members) : record.get? name = some value := by
  obtain ⟨members, ordered⟩ := record
  unfold Record.get?
  dsimp only at member ⊢
  induction members with
  | nil => cases member
  | cons first rest ih =>
      obtain ⟨key, held⟩ := first
      rw [List.map_cons, List.pairwise_cons] at ordered
      rcases List.mem_cons.mp member with same | later
      · cases same
        simp
      · have above := ordered.1 name (List.mem_map.mpr ⟨_, later, rfl⟩)
        rw [List.lookup_cons, beq_false_of_ne (ne_of_gt above)]
        exact ih ordered.2 later

variable {pairing later : Pairing} {heap heap₁ heap₂ grown₁ grown₂ : Heap}

theorem Pairing.Fixes.mono (fixes : pairing.Fixes grown₁)
    (size : heap.arrays.size ≤ grown₁.arrays.size) : pairing.Fixes heap :=
  ⟨fun array present => fixes.arrays array (Nat.lt_of_lt_of_le present size), fixes.records,
    fixes.functions⟩

namespace Pairing.Carries

theorem refl (pairing : Pairing) (heap : Heap) : pairing.Carries pairing heap :=
  ⟨fun _ _ paired _ => paired, fun _ _ => id, fun _ _ => id⟩

variable (carries : pairing.Carries later heap)

include carries

theorem fixes (fixes : pairing.Fixes heap) : later.Fixes heap where
  arrays array present := carries.arrays array array (fixes.arrays array present) present
  records record := carries.records record record (fixes.records record)
  functions function := carries.functions function function (fixes.functions function)

theorem mono {smaller : Heap} (size : smaller.arrays.size ≤ heap.arrays.size) :
    pairing.Carries later smaller :=
  ⟨fun array₁ array₂ paired there =>
    carries.arrays array₁ array₂ paired (Nat.lt_of_lt_of_le there size),
    carries.records, carries.functions⟩

theorem value {value₁ value₂ : Value} (alike : value₁.Alike pairing value₂)
    (present : value₁.Present heap) : value₁.Alike later value₂ := by
  cases alike with
  | none => exact .none
  | number number => exact .number number
  | text text => exact .text text
  | bool truth => exact .bool truth
  | array paired => exact .array (carries.arrays _ _ paired present)
  | record paired => exact .record (carries.records _ _ paired)
  | function paired => exact .function (carries.functions _ _ paired)

end Pairing.Carries

/-- A value of the heap stands for itself. -/
theorem Pairing.Fixes.value (fixes : pairing.Fixes heap) {value : Value}
    (present : value.Present heap) : value.Alike pairing value := by
  cases value with
  | none => exact .none
  | number number => exact .number number
  | text text => exact .text text
  | bool truth => exact .bool truth
  | array reference => exact .array (fixes.arrays reference present)
  | record reference => exact .record (fixes.records reference)
  | function reference => exact .function (fixes.functions reference)

/-- Nothing else stands for a value of the heap. -/
theorem Pairing.Fixes.eq_of_alike (fixes : pairing.Fixes heap) {value₁ value₂ : Value}
    (alike : value₁.Alike pairing value₂) (present : value₁.Present heap) : value₁ = value₂ := by
  cases alike with
  | none | number | text | bool => rfl
  | array paired => rw [pairing.arraysUnique.2 (fixes.arrays _ present) paired]
  | record paired => rw [pairing.recordsUnique.2 (fixes.records _) paired]
  | function paired => rw [pairing.functionsUnique.2 (fixes.functions _) paired]

theorem Pairing.fixes_identity (heap : Heap) : Pairing.identity.Fixes heap :=
  ⟨fun _ _ => rfl, fun _ => rfl, fun _ => rfl⟩

namespace Heap

theorem Extends.record (grows : heap.Extends grown₁) (reference : RecordRef) :
    grown₁.record reference = heap.record reference := by
  simp only [Heap.record, grows.objects.records]

theorem Extends.function (grows : heap.Extends grown₁) (reference : FunctionRef) :
    grown₁.function reference = heap.function reference := by
  simp only [Heap.function, grows.objects.functions]

/-- An array that is there does not stand for one that is not. -/
theorem Alike.present_array (alike : heap₁.Alike pairing heap₂) {array₁ array₂ : ArrayRef}
    (paired : pairing.arrays array₁ array₂) (present : array₁.address < heap₁.arrays.size) :
    array₂.address < heap₂.arrays.size := by
  refine Nat.lt_of_not_le fun absent => ?_
  obtain ⟨more, same⟩ := Nat.exists_eq_add_of_le absent
  have next := alike.nextArrays more
  rw [← same] at next
  obtain rfl := pairing.arraysUnique.1 paired next
  exact Nat.not_lt.mpr (Nat.le_add_right _ _) present

variable (alike : heap₁.Alike pairing heap₂) (grows₁ : heap₁.Extends grown₁)
  (grows₂ : heap₂.Extends grown₂)

/-- The pairs of arrays that are there, and all pairs of arrays to come. -/
def Alike.rebased : Pairing where
  arrays := Paired ArrayRef.address
    (fun array₁ array₂ => pairing.arrays array₁ array₂ ∧ array₁.address < heap₁.arrays.size)
    grown₁.arrays.size grown₂.arrays.size
  records := pairing.records
  functions := pairing.functions
  arraysUnique := by
    refine biUnique_paired (by rintro ⟨_⟩ ⟨_⟩ ⟨⟩; rfl) ⟨?_, ?_⟩ ?_
    · exact fun _ _ _ first second => pairing.arraysUnique.1 first.1 second.1
    · exact fun _ _ _ first second => pairing.arraysUnique.2 first.1 second.1
    · intro array₁ array₂ there
      exact ⟨Nat.lt_of_lt_of_le there.2 grows₁.arrays.size,
        Nat.lt_of_lt_of_le (alike.present_array there.1 there.2) grows₂.arrays.size⟩
  recordsUnique := pairing.recordsUnique
  functionsUnique := pairing.functionsUnique

theorem Alike.carries_rebased : pairing.Carries (alike.rebased grows₁ grows₂) heap₁ :=
  ⟨fun _ _ paired there => .inl ⟨paired, there⟩, fun _ _ => id, fun _ _ => id⟩

/-- Arrays that nothing refers to make no difference. -/
theorem Alike.rebase (closed : heap₁.Closed) :
    grown₁.Alike (alike.rebased grows₁ grows₂) grown₂ where
  items := by
    intro array₁ array₂ paired
    rcases paired with ⟨paired, there⟩ | ⟨more, new₁, new₂⟩
    · rw [grows₁.arrays.array there, grows₂.arrays.array (alike.present_array paired there)]
      have held := fun value (member : value ∈ (heap₁.array array₁).toList) =>
        closed.items array₁ value (Array.mem_def.mpr member)
      refine ((List.forall₂_and_left _ _).mpr ⟨held, alike.items array₁ array₂ paired⟩).imp ?_
      intro value₁ value₂ value
      exact (alike.carries_rebased grows₁ grows₂).value value.2 value.1
    · simp [Heap.array, new₁, new₂]
  members := by
    intro record₁ record₂ paired
    rw [grows₁.record, grows₂.record]
    have held := fun member (listed : member ∈ (heap₁.record record₁).members) =>
      closed.members record₁ member.1 member.2 (Record.get?_of_mem listed)
    refine ((List.forall₂_and_left _ _).mpr ⟨held, alike.members record₁ record₂ paired⟩).imp ?_
    intro member₁ member₂ members
    exact ⟨members.2.1, (alike.carries_rebased grows₁ grows₂).value members.2.2 members.1⟩
  functions := by
    intro function₁ function₂ paired
    rw [grows₁.function, grows₂.function]
    exact { alike.functions function₁ function₂ paired with }
  nextArrays more := .inr ⟨more, rfl, rfl⟩
  nextRecords := by
    rw [grows₁.objects.records, grows₂.objects.records]
    exact alike.nextRecords
  nextFunctions := by
    rw [grows₁.objects.functions, grows₂.objects.functions]
    exact alike.nextFunctions
  plain := by
    intro reference script entry
    rw [grows₁.function]
    exact alike.plain reference script entry

end Heap

end ScriptEngine
