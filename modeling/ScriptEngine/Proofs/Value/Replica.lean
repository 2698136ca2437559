import ScriptEngine.Proofs.Value.Alike

/-!
# Copies of heaps

A copy of a heap has, for each object of a part of the heap, an object with the same contents,
up to the objects which these refer to in turn. The copy is alike once the objects that both
heaps are going to make stand for each other too (`Heap.CopiedTo.alike`). Every heap is alike
to itself with each object standing for itself, and nothing else is (`Heap.Alike.eq`).
-/

set_option autoImplicit false

namespace ScriptEngine

open Relator

/-- Objects that stand for each other in the one still do so in the other. -/
structure Pairing.Within (pairing later : Pairing) : Prop where
  arrays : ∀ array₁ array₂, pairing.arrays array₁ array₂ → later.arrays array₁ array₂
  records : ∀ record₁ record₂, pairing.records record₁ record₂ → later.records record₁ record₂
  functions : ∀ function₁ function₂, pairing.functions function₁ function₂ →
    later.functions function₁ function₂

/-- Objects that stand for each other are there, and their contents are alike. So whatever can
be reached from them has also been copied. -/
structure Heap.CopiedTo (pairing : Pairing) (heap₁ heap₂ : Heap) : Prop extends
    Heap.SameContents pairing heap₁ heap₂ where
  arraysPresent : ∀ array₁ array₂, pairing.arrays array₁ array₂ →
    array₁.address < heap₁.arrays.size ∧ array₂.address < heap₂.arrays.size
  recordsPresent : ∀ record₁ record₂, pairing.records record₁ record₂ →
    record₁.address < heap₁.records.size ∧ record₂.address < heap₂.records.size
  functionsPresent : ∀ function₁ function₂, pairing.functions function₁ function₂ →
    function₁.address < heap₁.functions.size ∧ function₂.address < heap₂.functions.size

/-!
## More pairs
-/

section

variable {pairing later : Pairing} (within : pairing.Within later)

include within

theorem Value.Alike.mono {value₁ value₂ : Value} (alike : value₁.Alike pairing value₂) :
    value₁.Alike later value₂ := by
  cases alike with
  | none => exact .none
  | number number => exact .number number
  | text text => exact .text text
  | bool truth => exact .bool truth
  | array paired => exact .array (within.arrays _ _ paired)
  | record paired => exact .record (within.records _ _ paired)
  | function paired => exact .function (within.functions _ _ paired)

theorem Record.Alike.mono {record₁ record₂ : Record} (alike : record₁.Alike pairing record₂) :
    record₁.Alike later record₂ :=
  List.Forall₂.imp (fun _ _ members => ⟨members.1, members.2.mono within⟩) alike

theorem Function.Alike.mono {function₁ function₂ : Function}
    (alike : function₁.Alike pairing function₂) : function₁.Alike later function₂ := by
  refine { alike with globals := ?_ }
  have globals := alike.globals
  generalize function₁.globals = globals₁ at globals ⊢
  generalize function₂.globals = globals₂ at globals ⊢
  cases globals with
  | none => exact .none
  | some paired => exact .some (within.records _ _ paired)

end

/-- The objects stand for each other, or they are not there yet and will be made by the same
step. -/
def Paired {ρ : Type} (address : ρ → Nat) (related : ρ → ρ → Prop) (size₁ size₂ : Nat)
    (one₁ one₂ : ρ) : Prop :=
  related one₁ one₂ ∨ ∃ more, address one₁ = size₁ + more ∧ address one₂ = size₂ + more

theorem biUnique_paired {ρ : Type} {address : ρ → Nat} (injective : address.Injective)
    {related : ρ → ρ → Prop} (unique : BiUnique related) {size₁ size₂ : Nat}
    (present : ∀ one₁ one₂, related one₁ one₂ → address one₁ < size₁ ∧ address one₂ < size₂) :
    BiUnique (Paired address related size₁ size₂) := by
  constructor
  · rintro left right shared (here | ⟨more, new, same⟩) (there | ⟨further, newer, again⟩)
    · exact unique.1 here there
    · exact absurd (present _ _ here).2 (by omega)
    · exact absurd (present _ _ there).2 (by omega)
    · exact injective (by omega)
  · rintro shared left right (here | ⟨more, same, new⟩) (there | ⟨further, again, newer⟩)
    · exact unique.2 here there
    · exact absurd (present _ _ here).1 (by omega)
    · exact absurd (present _ _ there).1 (by omega)
    · exact injective (by omega)

namespace Heap.CopiedTo

variable {pairing : Pairing} {heap₁ heap₂ : Heap} (copied : heap₁.CopiedTo pairing heap₂)

/-- The pairs of the copy, and all pairs of objects to come. -/
def extended : Pairing where
  arrays := Paired ArrayRef.address pairing.arrays heap₁.arrays.size heap₂.arrays.size
  records := Paired RecordRef.address pairing.records heap₁.records.size heap₂.records.size
  functions :=
    Paired FunctionRef.address pairing.functions heap₁.functions.size heap₂.functions.size
  arraysUnique := biUnique_paired (by rintro ⟨_⟩ ⟨_⟩ ⟨⟩; rfl) pairing.arraysUnique
    copied.arraysPresent
  recordsUnique := biUnique_paired (by rintro ⟨_⟩ ⟨_⟩ ⟨⟩; rfl) pairing.recordsUnique
    copied.recordsPresent
  functionsUnique := biUnique_paired (by rintro ⟨_⟩ ⟨_⟩ ⟨⟩; rfl) pairing.functionsUnique
    copied.functionsPresent

include copied

theorem within : pairing.Within copied.extended :=
  ⟨fun _ _ => .inl, fun _ _ => .inl, fun _ _ => .inl⟩

theorem alike (plain : ∀ reference script entry,
    (heap₁.function reference).body = .script script entry → script.Plain) :
    heap₁.Alike copied.extended heap₂ where
  items := by
    rintro array₁ array₂ (old | ⟨more, new₁, new₂⟩)
    · exact (copied.items _ _ old).imp fun _ _ value => value.mono copied.within
    · simp [Heap.array, new₁, new₂]
  members := by
    rintro record₁ record₂ (old | ⟨more, new₁, new₂⟩)
    · exact (copied.members _ _ old).mono copied.within
    · simpa [Heap.record, new₁, new₂] using Record.Alike.empty
  functions := by
    rintro function₁ function₂ (old | ⟨more, new₁, new₂⟩)
    · exact (copied.functions _ _ old).mono copied.within
    · have missing : (default : Function).Alike copied.extended default := ⟨rfl, rfl, rfl, .none⟩
      simpa [Heap.function, new₁, new₂] using missing
  nextArrays more := .inr ⟨more, rfl, rfl⟩
  nextRecords more := .inr ⟨more, rfl, rfl⟩
  nextFunctions more := .inr ⟨more, rfl, rfl⟩
  plain := plain

end Heap.CopiedTo

/-!
## The same heap
-/

theorem biUnique_eq {ρ : Type} : BiUnique (@Eq ρ) :=
  ⟨fun _ _ _ first second => first.trans second.symm,
    fun _ _ _ first second => first.symm.trans second⟩

/-- Each object stands for itself. -/
def Pairing.identity : Pairing :=
  ⟨Eq, Eq, Eq, biUnique_eq, biUnique_eq, biUnique_eq⟩

theorem Value.alike_refl (value : Value) : value.Alike .identity value := by
  cases value with
  | none => exact .none
  | number number => exact .number number
  | text text => exact .text text
  | bool truth => exact .bool truth
  | array => exact .array rfl
  | record => exact .record rfl
  | function => exact .function rfl

theorem Heap.alike_refl {heap : Heap} (plain : ∀ reference script entry,
    (heap.function reference).body = .script script entry → script.Plain) :
    heap.Alike .identity heap where
  items := by
    rintro array _ rfl
    exact List.forall₂_same.mpr fun value _ => value.alike_refl
  members := by
    rintro record _ rfl
    exact List.forall₂_same.mpr fun member _ => ⟨rfl, member.2.alike_refl⟩
  functions := by
    rintro function _ rfl
    refine ⟨rfl, rfl, rfl, ?_⟩
    cases (heap.function function).globals with
    | none => exact .none
    | some reference => exact .some rfl
  nextArrays _ := rfl
  nextRecords _ := rfl
  nextFunctions _ := rfl
  plain := plain

theorem Value.Alike.eq {value₁ value₂ : Value} (alike : value₁.Alike .identity value₂) :
    value₁ = value₂ := by
  cases alike with
  | none | number | text | bool => rfl
  | array paired => exact congrArg Value.array paired
  | record paired => exact congrArg Value.record paired
  | function paired => exact congrArg Value.function paired

theorem Record.Alike.eq {record₁ record₂ : Record} (alike : record₁.Alike .identity record₂) :
    record₁ = record₂ := by
  have members : record₁.members = record₂.members := by
    rw [← List.forall₂_eq_eq_eq]
    exact List.Forall₂.imp (fun _ _ member => Prod.ext member.1 member.2.eq) alike
  cases record₁
  cases record₂
  cases members
  rfl

theorem Function.Alike.eq {function₁ function₂ : Function}
    (alike : function₁.Alike .identity function₂) : function₁ = function₂ := by
  obtain ⟨name, parameters, body, globals₁⟩ := function₁
  obtain ⟨_, _, _, globals₂⟩ := function₂
  obtain ⟨rfl, rfl, rfl, globals⟩ := alike
  cases globals with
  | none => rfl
  | some same => rw [show _ = _ from same]

theorem array_eq_of_getD {α : Type} {array₁ array₂ : Array α} (missing : α)
    (size : array₁.size = array₂.size)
    (same : ∀ position : Nat, array₁[position]?.getD missing = array₂[position]?.getD missing) :
    array₁ = array₂ := by
  refine Array.ext size fun position present₁ present₂ => ?_
  simpa [present₁, present₂] using same position

/-- Heaps that are alike with each object standing for itself are the same. -/
theorem Heap.Alike.eq {heap₁ heap₂ : Heap} (alike : heap₁.Alike .identity heap₂) :
    heap₁ = heap₂ := by
  have arrays : heap₁.arrays = heap₂.arrays := by
    refine array_eq_of_getD #[] (congrArg ArrayRef.address (alike.nextArrays 0)) fun position => ?_
    have items := alike.items ⟨position⟩ _ rfl
    refine Array.toList_inj.mp (List.forall₂_eq_eq_eq ▸ ?_)
    exact items.imp fun _ _ value => value.eq
  have records : heap₁.records = heap₂.records :=
    array_eq_of_getD .empty (congrArg RecordRef.address (alike.nextRecords 0)) fun position =>
      (alike.members ⟨position⟩ _ rfl).eq
  have functions : heap₁.functions = heap₂.functions :=
    array_eq_of_getD default (congrArg FunctionRef.address (alike.nextFunctions 0))
      fun position => (alike.functions ⟨position⟩ _ rfl).eq
  cases heap₁
  cases heap₂
  cases arrays
  cases records
  cases functions
  rfl

theorem RuntimeCause.Alike.eq {cause₁ cause₂ : RuntimeCause}
    (causes : cause₁.Alike .identity cause₂) : cause₁ = cause₂ := by
  cases causes with
  | nonNumeric value | nonRecord value | invalidCallee value | invalidArgument value
  | nonIterable value | nonIndexable value => exact congrArg _ value.eq
  | indexOutOfRange index length => rw [index.eq]
  | nonNumerics left right | nonAddable left right | nonComparable left right =>
      exact congrArg₂ _ left.eq right.eq
  | invalidAccess | undefinedMember | invalidArgumentCount | undefinedScope | jump
  | borrowedNamespace | timeLimit | notStopped | unbalancedResults => rfl

theorem RuntimeError.Alike.eq {failure₁ failure₂ : RuntimeError}
    (failures : failure₁.Alike .identity failure₂) : failure₁ = failure₂ := by
  obtain ⟨cause₁, span⟩ := failure₁
  obtain ⟨cause₂, _⟩ := failure₂
  obtain ⟨causes, rfl⟩ := failures
  exact congrArg (RuntimeError.mk · span) causes.eq

/-!
## Heaps without dangling references
-/

def Value.isPresent (heap : Heap) : Value → Bool
  | .array reference => reference.address < heap.arrays.size
  | .record reference => reference.address < heap.records.size
  | .function reference => reference.address < heap.functions.size
  | .none | .number _ | .text _ | .bool _ => true

/-- Whether every object is there that another one refers to. -/
def Heap.isClosed (heap : Heap) : Bool :=
  heap.arrays.toList.all (fun items => items.toList.all (Value.isPresent heap)) &&
    heap.records.toList.all (fun record =>
      record.members.all fun member => member.2.isPresent heap) &&
    heap.functions.toList.all fun function =>
      function.globals.all fun globals => globals.address < heap.records.size

theorem biUnique_present {ρ : Type} (present : ρ → Prop) :
    BiUnique fun one₁ one₂ : ρ => one₁ = one₂ ∧ present one₁ :=
  ⟨fun _ _ _ first second => first.1.trans second.1.symm,
    fun _ _ _ first second => first.1.symm.trans second.1⟩

/-- Each object that is there stands for itself. -/
def Pairing.present (heap : Heap) : Pairing where
  arrays array₁ array₂ := array₁ = array₂ ∧ array₁.address < heap.arrays.size
  records record₁ record₂ := record₁ = record₂ ∧ record₁.address < heap.records.size
  functions function₁ function₂ :=
    function₁ = function₂ ∧ function₁.address < heap.functions.size
  arraysUnique := biUnique_present _
  recordsUnique := biUnique_present _
  functionsUnique := biUnique_present _

theorem Value.alike_of_isPresent {heap : Heap} {value : Value}
    (present : value.isPresent heap = true) : value.Alike (.present heap) value := by
  cases value with
  | none => exact .none
  | number number => exact .number number
  | text text => exact .text text
  | bool truth => exact .bool truth
  | array reference => exact .array ⟨rfl, by simpa [isPresent] using present⟩
  | record reference => exact .record ⟨rfl, by simpa [isPresent] using present⟩
  | function reference => exact .function ⟨rfl, by simpa [isPresent] using present⟩

/-- A heap without dangling references is a copy of itself. -/
theorem Heap.copiedTo_self {heap : Heap} (closed : heap.isClosed = true) :
    heap.CopiedTo (.present heap) heap := by
  simp only [isClosed, Bool.and_eq_true, List.all_eq_true] at closed
  obtain ⟨⟨arrays, records⟩, functions⟩ := closed
  refine ⟨⟨?_, ?_, ?_⟩, ?_, ?_, ?_⟩
  · rintro array _ ⟨rfl, present⟩
    have here : heap.array array ∈ heap.arrays.toList := by simp [Heap.array, present]
    exact List.forall₂_same.mpr fun value member =>
      Value.alike_of_isPresent (arrays _ here value member)
  · rintro record _ ⟨rfl, present⟩
    have here : heap.record record ∈ heap.records.toList := by simp [Heap.record, present]
    exact List.forall₂_same.mpr fun member listed =>
      ⟨rfl, Value.alike_of_isPresent (records _ here member listed)⟩
  · rintro function _ ⟨rfl, present⟩
    have here : heap.function function ∈ heap.functions.toList := by
      simp [Heap.function, present]
    have globals := functions _ here
    refine ⟨rfl, rfl, rfl, ?_⟩
    generalize (heap.function function).globals = captured at globals
    cases captured with
    | none => exact .none
    | some reference => exact .some ⟨rfl, of_decide_eq_true globals⟩
  all_goals
    rintro object _ ⟨rfl, present⟩
    exact ⟨present, present⟩

end ScriptEngine
