import Mathlib
import ScriptEngine.Proofs.Grammar.Constants
import ScriptEngine.Proofs.Value.Comparison
import ScriptEngine.Session.Advance

/-!
# Heaps that are alike

Two heaps are alike if objects of the one stand for objects of the other that have the same
contents, up to the objects which these refer to in turn. Nothing is said about objects that
stand for none. Objects which are made next will stand for each other, so heaps stay alike
while the same things are done to both. Whatever is computed from values that stand for each
other is the same in both heaps: reading and writing, the operators, and the texts of values.
-/

set_option autoImplicit false

namespace ScriptEngine

open Relator

/-- Which objects of one heap stand for which objects of another one. No two objects stand for
the same one. -/
structure Pairing where
  arrays : ArrayRef → ArrayRef → Prop
  records : RecordRef → RecordRef → Prop
  functions : FunctionRef → FunctionRef → Prop
  arraysUnique : BiUnique arrays
  recordsUnique : BiUnique records
  functionsUnique : BiUnique functions

/-- The values are the same, or objects that stand for each other. -/
inductive Value.Alike (pairing : Pairing) : Value → Value → Prop where
  | none : Alike pairing .none .none
  | number (number : Float) : Alike pairing (.number number) (.number number)
  | text (text : String) : Alike pairing (.text text) (.text text)
  | bool (truth : Bool) : Alike pairing (.bool truth) (.bool truth)
  | array {array₁ array₂ : ArrayRef} (paired : pairing.arrays array₁ array₂) :
      Alike pairing (.array array₁) (.array array₂)
  | record {record₁ record₂ : RecordRef} (paired : pairing.records record₁ record₂) :
      Alike pairing (.record record₁) (.record record₂)
  | function {function₁ function₂ : FunctionRef}
      (paired : pairing.functions function₁ function₂) :
      Alike pairing (.function function₁) (.function function₂)

/-- The records have members of the same names with values that are alike. -/
def Record.Alike (pairing : Pairing) (record₁ record₂ : Record) : Prop :=
  List.Forall₂ (fun member₁ member₂ => member₁.1 = member₂.1 ∧ member₁.2.Alike pairing member₂.2)
    record₁.members record₂.members

/-- The functions do the same, and look names up in records that stand for each other. -/
structure Function.Alike (pairing : Pairing) (function₁ function₂ : Function) : Prop where
  name : function₁.name = function₂.name
  parameters : function₁.parameters = function₂.parameters
  body : function₁.body = function₂.body
  globals : Option.Rel pairing.records function₁.globals function₂.globals

/-- Objects that stand for each other have contents that are alike. -/
structure Heap.SameContents (pairing : Pairing) (heap₁ heap₂ : Heap) : Prop where
  items : ∀ array₁ array₂, pairing.arrays array₁ array₂ →
    List.Forall₂ (Value.Alike pairing) (heap₁.array array₁).toList (heap₂.array array₂).toList
  members : ∀ record₁ record₂, pairing.records record₁ record₂ →
    (heap₁.record record₁).Alike pairing (heap₂.record record₂)
  functions : ∀ function₁ function₂, pairing.functions function₁ function₂ →
    (heap₁.function function₁).Alike pairing (heap₂.function function₂)

/-- Objects that stand for each other have contents that are alike, and objects which the heaps
do not have yet stand for each other in the order in which they will be made. Constants of
scripts refer to no object. -/
structure Heap.Alike (pairing : Pairing) (heap₁ heap₂ : Heap) : Prop extends
    Heap.SameContents pairing heap₁ heap₂ where
  nextArrays : ∀ more, pairing.arrays ⟨heap₁.arrays.size + more⟩ ⟨heap₂.arrays.size + more⟩
  nextRecords : ∀ more, pairing.records ⟨heap₁.records.size + more⟩ ⟨heap₂.records.size + more⟩
  nextFunctions : ∀ more,
    pairing.functions ⟨heap₁.functions.size + more⟩ ⟨heap₂.functions.size + more⟩
  plain : ∀ reference script entry, (heap₁.function reference).body = .script script entry →
    script.Plain

/-- Both errors have the same cause, with values that are alike. -/
inductive RuntimeCause.Alike (pairing : Pairing) : RuntimeCause → RuntimeCause → Prop where
  | nonNumeric {operand₁ operand₂ : Value} (operand : operand₁.Alike pairing operand₂) :
      Alike pairing (.nonNumeric operand₁) (.nonNumeric operand₂)
  | nonNumerics {left₁ left₂ right₁ right₂ : Value} (left : left₁.Alike pairing left₂)
      (right : right₁.Alike pairing right₂) :
      Alike pairing (.nonNumerics left₁ right₁) (.nonNumerics left₂ right₂)
  | nonAddable {left₁ left₂ right₁ right₂ : Value} (left : left₁.Alike pairing left₂)
      (right : right₁.Alike pairing right₂) :
      Alike pairing (.nonAddable left₁ right₁) (.nonAddable left₂ right₂)
  | nonComparable {left₁ left₂ right₁ right₂ : Value} (left : left₁.Alike pairing left₂)
      (right : right₁.Alike pairing right₂) :
      Alike pairing (.nonComparable left₁ right₁) (.nonComparable left₂ right₂)
  | invalidAccess (name : String) : Alike pairing (.invalidAccess name) (.invalidAccess name)
  | undefinedMember (name : String) :
      Alike pairing (.undefinedMember name) (.undefinedMember name)
  | nonRecord {value₁ value₂ : Value} (value : value₁.Alike pairing value₂) :
      Alike pairing (.nonRecord value₁) (.nonRecord value₂)
  | invalidCallee {value₁ value₂ : Value} (value : value₁.Alike pairing value₂) :
      Alike pairing (.invalidCallee value₁) (.invalidCallee value₂)
  | invalidArgumentCount (actual expected : Nat) :
      Alike pairing (.invalidArgumentCount actual expected)
        (.invalidArgumentCount actual expected)
  | invalidArgument {value₁ value₂ : Value} (value : value₁.Alike pairing value₂) :
      Alike pairing (.invalidArgument value₁) (.invalidArgument value₂)
  | nonIterable {value₁ value₂ : Value} (value : value₁.Alike pairing value₂) :
      Alike pairing (.nonIterable value₁) (.nonIterable value₂)
  | nonIndexable {value₁ value₂ : Value} (value : value₁.Alike pairing value₂) :
      Alike pairing (.nonIndexable value₁) (.nonIndexable value₂)
  | indexOutOfRange {index₁ index₂ : Value} (index : index₁.Alike pairing index₂)
      (length : Nat) :
      Alike pairing (.indexOutOfRange index₁ length) (.indexOutOfRange index₂ length)
  | undefinedScope : Alike pairing .undefinedScope .undefinedScope
  | jump (failure : JumpFailure) : Alike pairing (.jump failure) (.jump failure)
  | borrowedNamespace : Alike pairing .borrowedNamespace .borrowedNamespace
  | timeLimit (milliseconds : Nat) :
      Alike pairing (.timeLimit milliseconds) (.timeLimit milliseconds)
  | notStopped : Alike pairing .notStopped .notStopped
  | unbalancedResults (count : Nat) :
      Alike pairing (.unbalancedResults count) (.unbalancedResults count)

/-- Both give something, and this is related, or both fail alike. -/
inductive Agree {α β : Type} (pairing : Pairing) (related : α → β → Prop) :
    Except RuntimeCause α → Except RuntimeCause β → Prop where
  | ok {result₁ : α} {result₂ : β} (results : related result₁ result₂) :
      Agree pairing related (.ok result₁) (.ok result₂)
  | error {cause₁ cause₂ : RuntimeCause} (causes : cause₁.Alike pairing cause₂) :
      Agree pairing related (.error cause₁) (.error cause₂)

/-- What was computed is related, and the heaps that it left are alike. -/
def Left {α β : Type} (pairing : Pairing) (related : α → β → Prop) (left₁ : α × Heap)
    (left₂ : β × Heap) : Prop :=
  related left₁.1 left₂.1 ∧ left₁.2.Alike pairing left₂.2

section

variable {α β γ δ : Type} {related : α → β → Prop} {others : γ → δ → Prop}

theorem map_eq_of_forall₂ {first : α → γ} {second : β → γ} {list₁ : List α} {list₂ : List β}
    (lists : List.Forall₂ related list₁ list₂)
    (same : ∀ one₁ one₂, related one₁ one₂ → first one₁ = second one₂) :
    list₁.map first = list₂.map second := by
  induction lists with
  | nil => rfl
  | cons head _ ih => rw [List.map_cons, List.map_cons, same _ _ head, ih]

theorem rel_getElem? {list₁ : List α} {list₂ : List β}
    (lists : List.Forall₂ related list₁ list₂) (position : Nat) :
    Option.Rel related list₁[position]? list₂[position]? := by
  induction lists generalizing position with
  | nil => exact .none
  | cons head _ ih =>
      cases position with
      | zero => exact .some head
      | succ position => exact ih position

theorem rel_findSome? {first : α → Option γ} {second : β → Option δ} {list₁ : List α}
    {list₂ : List β} (lists : List.Forall₂ related list₁ list₂)
    (found : ∀ one₁ one₂, related one₁ one₂ → Option.Rel others (first one₁) (second one₂)) :
    Option.Rel others (list₁.findSome? first) (list₂.findSome? second) := by
  induction lists with
  | nil => exact .none
  | cons head _ ih =>
      have here := found _ _ head
      simp only [List.findSome?_cons]
      generalize first _ = answer₁ at here
      generalize second _ = answer₂ at here
      cases here with
      | none => exact ih
      | some given => exact .some given

theorem beq_eq_beq [DecidableEq α] [DecidableEq β] {left₁ right₁ : α} {left₂ right₂ : β}
    (same : left₁ = right₁ ↔ left₂ = right₂) : (left₁ == right₁) = (left₂ == right₂) := by
  rw [Bool.eq_iff_iff, beq_iff_eq, beq_iff_eq]
  exact same

theorem allEqual_eq {equal₁ equal₂ : Value → Value → Option Bool}
    {left₁ left₂ right₁ right₂ : List Value} {related : Value → Value → Prop}
    (left : List.Forall₂ related left₁ left₂) (right : List.Forall₂ related right₁ right₂)
    (same : ∀ left₁ left₂ right₁ right₂, related left₁ left₂ → related right₁ right₂ →
      equal₁ left₁ right₁ = equal₂ left₂ right₂) :
    Heap.allEqual equal₁ (left₁.zip right₁) = Heap.allEqual equal₂ (left₂.zip right₂) := by
  induction left generalizing right₁ right₂ with
  | nil => rfl
  | cons head _ ih =>
      cases right with
      | nil => rfl
      | cons other rest =>
          simp only [List.zip_cons_cons, Heap.allEqual]
          rw [same _ _ _ _ head other, ih rest]

theorem Agree.refused {pairing : Pairing} (related : α → β → Prop) {cause₁ cause₂ : RuntimeCause}
    (causes : cause₁.Alike pairing cause₂) :
    Agree pairing related (.error cause₁) (.error cause₂) :=
  .error causes

theorem Agree.map {pairing : Pairing} {first : α → γ} {second : β → δ}
    {answer₁ : Except RuntimeCause α} {answer₂ : Except RuntimeCause β}
    (agree : Agree pairing related answer₁ answer₂)
    (mapped : ∀ one₁ one₂, related one₁ one₂ → others (first one₁) (second one₂)) :
    Agree pairing others (answer₁.map first) (answer₂.map second) := by
  cases agree with
  | ok results => exact .ok (mapped _ _ results)
  | error causes => exact .error causes

end

variable {pairing : Pairing} {heap₁ heap₂ : Heap}

/-!
## Values and records
-/

namespace Value.Alike

variable {value₁ value₂ : Value} (alike : value₁.Alike pairing value₂)

include alike

theorem typeName : value₁.typeName = value₂.typeName := by
  cases alike <;> rfl

theorem recordRef? : Option.Rel pairing.records value₁.recordRef? value₂.recordRef? := by
  cases alike with
  | record paired => exact .some paired
  | none | number | text | bool | array | function => exact .none

end Value.Alike

theorem Value.Plain.alike {value : Value} (plain : value.Plain) : value.Alike pairing value := by
  cases value with
  | none => exact .none
  | number number => exact .number number
  | text text => exact .text text
  | bool truth => exact .bool truth
  | array | record | function => exact plain.elim

namespace Record.Alike

variable {record₁ record₂ : Record}

theorem empty : Record.empty.Alike pairing Record.empty :=
  .nil

variable (alike : record₁.Alike pairing record₂)

include alike

theorem get? (name : String) :
    Option.Rel (Value.Alike pairing) (record₁.get? name) (record₂.get? name) := by
  unfold Record.get?
  unfold Record.Alike at alike
  generalize record₁.members = members₁ at alike ⊢
  generalize record₂.members = members₂ at alike ⊢
  induction alike with
  | nil => exact .none
  | @cons member₁ member₂ _ _ head _ ih =>
      obtain ⟨key₁, value₁⟩ := member₁
      obtain ⟨key₂, value₂⟩ := member₂
      obtain ⟨rfl, value⟩ := head
      simp only [List.lookup_cons]
      split
      · exact .some value
      · exact ih

theorem contains (name : String) : record₁.contains name = record₂.contains name := by
  have found := alike.get? name
  unfold Record.contains
  generalize record₁.get? name = found₁ at found ⊢
  generalize record₂.get? name = found₂ at found ⊢
  cases found <;> rfl

theorem names : record₁.names = record₂.names :=
  map_eq_of_forall₂ alike fun _ _ members => members.1

theorem size : record₁.size = record₂.size :=
  alike.length_eq

theorem insert (name : String) {value₁ value₂ : Value} (value : value₁.Alike pairing value₂) :
    (record₁.insert name value₁).Alike pairing (record₂.insert name value₂) := by
  unfold Record.Alike Record.insert at *
  dsimp only
  generalize record₁.members = members₁ at alike ⊢
  generalize record₂.members = members₂ at alike ⊢
  induction alike with
  | nil => exact .cons ⟨rfl, value⟩ .nil
  | @cons member₁ member₂ _ _ head rest ih =>
      obtain ⟨key₁, held₁⟩ := member₁
      obtain ⟨key₂, held₂⟩ := member₂
      obtain ⟨rfl, held⟩ := head
      simp only [insertMember]
      split
      · exact .cons ⟨rfl, value⟩ (.cons ⟨rfl, held⟩ rest)
      · split
        · exact .cons ⟨rfl, value⟩ rest
        · exact .cons ⟨rfl, held⟩ ih

theorem erase (name : String) : (record₁.erase name).Alike pairing (record₂.erase name) := by
  refine List.rel_filter (fun member₁ member₂ members => ?_) alike
  simp only [members.1]

end Record.Alike

/-!
## Objects
-/

theorem Heap.array_newArray_eq (heap : Heap) (items : Array Value) (read : ArrayRef) :
    (heap.newArray items).2.array read =
      if read = ⟨heap.arrays.size⟩ then items else heap.array read := by
  obtain ⟨address⟩ := read
  simp only [newArray, array, Array.getElem?_push, ArrayRef.mk.injEq]
  split <;> rfl

theorem Heap.record_newRecord_eq (heap : Heap) (record : Record) (read : RecordRef) :
    (heap.newRecord record).2.record read =
      if read = ⟨heap.records.size⟩ then record else heap.record read := by
  obtain ⟨address⟩ := read
  simp only [newRecord, Heap.record, Array.getElem?_push, RecordRef.mk.injEq]
  split <;> rfl

theorem Heap.function_newFunction_eq (heap : Heap) (function : Function) (read : FunctionRef) :
    (heap.newFunction function).2.function read =
      if read = ⟨heap.functions.size⟩ then function else heap.function read := by
  obtain ⟨address⟩ := read
  simp only [newFunction, Heap.function, Array.getElem?_push, FunctionRef.mk.injEq]
  split <;> rfl

/-- Changing a record that is not there changes nothing. -/
theorem Heap.modifyRecord_absent {heap : Heap} {record : RecordRef} (change : Record → Record)
    (absent : ¬record.address < heap.records.size) : heap.modifyRecord record change = heap := by
  have same : heap.records.modify record.address change = heap.records := by
    refine Array.ext_getElem? fun position => ?_
    rw [Array.getElem?_modify]
    split
    · next here =>
        rw [← here, Array.getElem?_eq_none (Nat.not_lt.mp absent)]
        rfl
    · rfl
  rw [modifyRecord, same]

theorem forall₂_set {list₁ list₂ : List Value}
    (lists : List.Forall₂ (Value.Alike pairing) list₁ list₂) (position : Nat)
    {value₁ value₂ : Value} (value : value₁.Alike pairing value₂) :
    List.Forall₂ (Value.Alike pairing) (list₁.set position value₁)
      (list₂.set position value₂) := by
  induction lists generalizing position with
  | nil => exact .nil
  | cons head rest ih =>
      cases position with
      | zero => exact .cons value rest
      | succ position => exact .cons head (ih position)

/-!
## Reading
-/

namespace Heap.Alike

variable (alike : heap₁.Alike pairing heap₂)

include alike

theorem size_array {array₁ array₂ : ArrayRef} (paired : pairing.arrays array₁ array₂) :
    (heap₁.array array₁).size = (heap₂.array array₂).size := by
  simpa using (alike.items array₁ array₂ paired).length_eq

theorem lookupWithin (name : String) (links : Nat) {record₁ record₂ : RecordRef}
    (paired : pairing.records record₁ record₂) :
    Option.Rel (Value.Alike pairing) (heap₁.lookupWithin name links record₁)
      (heap₂.lookupWithin name links record₂) := by
  induction links generalizing record₁ record₂ with
  | zero =>
      have own := (alike.members record₁ record₂ paired).get? name
      unfold Heap.lookupWithin
      dsimp only
      generalize (heap₁.record record₁).get? name = own₁ at own
      generalize (heap₂.record record₂).get? name = own₂ at own
      cases own with
      | none => exact .none
      | some held => exact .some held
  | succ links ih =>
      have own := (alike.members record₁ record₂ paired).get? name
      have parents := (alike.members record₁ record₂ paired).get? superMember
      unfold Heap.lookupWithin
      dsimp only
      generalize (heap₁.record record₁).get? name = own₁ at own
      generalize (heap₂.record record₂).get? name = own₂ at own
      generalize (heap₁.record record₁).get? superMember = parents₁ at parents
      generalize (heap₂.record record₂).get? superMember = parents₂ at parents
      cases own with
      | some held => exact .some held
      | none =>
          cases parents with
          | none => exact .none
          | some parent =>
              cases parent with
              | none | number | text | bool | function => exact .none
              | record paired => exact ih paired
              | array paired =>
                  refine rel_findSome? (alike.items _ _ paired) fun item₁ item₂ item => ?_
                  cases item with
                  | record paired => exact ih paired
                  | none | number | text | bool | array | function => exact .none

theorem lookup {record₁ record₂ : RecordRef} (paired : pairing.records record₁ record₂)
    (name : String) :
    Option.Rel (Value.Alike pairing) (heap₁.lookup record₁ name) (heap₂.lookup record₂ name) :=
  alike.lookupWithin name inheritanceLimit paired

theorem lookupChain {chain₁ chain₂ : List RecordRef}
    (chains : List.Forall₂ pairing.records chain₁ chain₂) (name : String) :
    Option.Rel (Value.Alike pairing) (heap₁.lookupChain chain₁ name)
      (heap₂.lookupChain chain₂ name) :=
  rel_findSome? chains fun _ _ paired => alike.lookup paired name

/-- A member that is looked up where there must be one. -/
theorem member {record₁ record₂ : RecordRef} (paired : pairing.records record₁ record₂)
    (name : String) :
    Agree pairing (Value.Alike pairing)
      (match heap₁.lookup record₁ name with
        | some value => .ok value
        | none => .error (.undefinedMember name))
      (match heap₂.lookup record₂ name with
        | some value => .ok value
        | none => .error (.undefinedMember name)) := by
  have found := alike.lookup paired name
  generalize heap₁.lookup record₁ name = found₁ at found
  generalize heap₂.lookup record₂ name = found₂ at found
  cases found with
  | none => exact .error (.undefinedMember name)
  | some value => exact .ok value

omit alike in
theorem indexPosition {index₁ index₂ : Value} (index : index₁.Alike pairing index₂)
    (length : Nat) :
    Agree pairing Eq (indexPosition index₁ length) (indexPosition index₂ length) := by
  have refused := Agree.refused (@Eq Nat) (.invalidArgument index)
  cases index with
  | number number =>
      unfold ScriptEngine.indexPosition
      dsimp only
      split
      · exact refused
      · next whole _ =>
          generalize (if whole < 0 then (length : Int) + whole else whole) = position
          split
          · exact .ok rfl
          · exact .error (.indexOutOfRange (.number number) length)
  | none | text | bool | array | record | function => exact refused

theorem element {object₁ object₂ index₁ index₂ : Value} (object : object₁.Alike pairing object₂)
    (index : index₁.Alike pairing index₂) :
    Agree pairing (Value.Alike pairing) (heap₁.element object₁ index₁)
      (heap₂.element object₂ index₂) := by
  have refused := Agree.refused (Value.Alike pairing) (.nonIndexable object)
  cases object with
  | @array array₁ array₂ paired =>
      have positions := indexPosition index (heap₁.array array₁).size
      unfold Heap.element
      dsimp only
      rw [← alike.size_array paired]
      generalize ScriptEngine.indexPosition index₁ _ = position₁ at positions
      generalize ScriptEngine.indexPosition index₂ _ = position₂ at positions
      cases positions with
      | error causes => exact .error causes
      | @ok position _ same =>
          subst same
          have item := rel_getElem? (alike.items _ _ paired) position
          rw [Array.getElem?_toList, Array.getElem?_toList] at item
          dsimp only
          generalize (heap₁.array array₁)[position]? = item₁ at item
          generalize (heap₂.array array₂)[position]? = item₂ at item
          cases item with
          | none => exact .ok .none
          | some item => exact .ok item
  | text text =>
      have positions := indexPosition index text.toList.length
      unfold Heap.element
      dsimp only
      generalize ScriptEngine.indexPosition index₁ _ = position₁ at positions
      generalize ScriptEngine.indexPosition index₂ _ = position₂ at positions
      cases positions with
      | error causes => exact .error causes
      | ok same =>
          subst same
          exact .ok (.text _)
  | record paired =>
      cases index with
      | text name => exact alike.member paired name
      | none | number | bool | array | record | function => exact refused
  | none | number | bool | function => exact refused

theorem itemAt {source₁ source₂ : Value} (source : source₁.Alike pairing source₂)
    (position : Nat) :
    Option.Rel (Value.Alike pairing) (Iteration.itemAt heap₁ source₁ position)
      (Iteration.itemAt heap₂ source₂ position) := by
  cases source with
  | array paired =>
      have item := rel_getElem? (alike.items _ _ paired) position
      rwa [Array.getElem?_toList, Array.getElem?_toList] at item
  | text text =>
      unfold Iteration.itemAt
      dsimp only
      cases text.toList[position]? with
      | none => exact .none
      | some character => exact .some (.text _)
  | record paired =>
      unfold Iteration.itemAt
      dsimp only
      rw [(alike.members _ _ paired).names]
      cases (heap₂.record _).names[position]? with
      | none => exact .none
      | some name => exact .some (.text name)
  | none | number | bool | function => exact .none

theorem isTruthy {value₁ value₂ : Value} (value : value₁.Alike pairing value₂) :
    heap₁.isTruthy value₁ = heap₂.isTruthy value₂ := by
  cases value with
  | array paired =>
      simp only [Heap.isTruthy, alike.size_array paired]
  | none | number | text | bool | record | function => rfl

theorem nestedText (levels : Nat) {value₁ value₂ : Value} (value : value₁.Alike pairing value₂) :
    heap₁.nestedText levels value₁ = heap₂.nestedText levels value₂ := by
  induction levels generalizing value₁ value₂ with
  | zero =>
      cases value with
      | function paired => simp only [Heap.nestedText, (alike.functions _ _ paired).name]
      | none | number | text | bool | array | record => simp only [Heap.nestedText]
  | succ levels ih =>
      cases value with
      | function paired => simp only [Heap.nestedText, (alike.functions _ _ paired).name]
      | array paired =>
          simp only [Heap.nestedText]
          rw [map_eq_of_forall₂ (alike.items _ _ paired) fun _ _ item => ih item]
      | none | number | text | bool | record => simp only [Heap.nestedText]

theorem text {value₁ value₂ : Value} (value : value₁.Alike pairing value₂) :
    heap₁.text value₁ = heap₂.text value₂ := by
  cases value with
  | array paired =>
      simp only [Heap.text]
      rw [map_eq_of_forall₂ (alike.items _ _ paired) fun _ _ item =>
        alike.nestedText nestingLimit item]
  | record paired =>
      simp only [Heap.text]
      rw [map_eq_of_forall₂ (alike.members _ _ paired) fun member₁ member₂ member => ?_]
      rw [member.1, alike.nestedText nestingLimit member.2]
  | function paired => exact alike.nestedText nestingLimit (.function paired)
  | none | number | text | bool => rfl

theorem equalWithin (depth : Nat) {left₁ left₂ right₁ right₂ : Value}
    (left : left₁.Alike pairing left₂) (right : right₁.Alike pairing right₂) :
    heap₁.equalWithin depth left₁ right₁ = heap₂.equalWithin depth left₂ right₂ := by
  induction depth generalizing left₁ left₂ right₁ right₂ with
  | zero =>
      cases left <;> cases right <;> simp only [Heap.equalWithin]
      case array.array leftPaired _ _ rightPaired =>
        simp only [rel_eq pairing.arraysUnique leftPaired rightPaired]
      case record.record leftPaired _ _ rightPaired =>
        rw [beq_eq_beq (rel_eq pairing.recordsUnique leftPaired rightPaired)]
      case function.function leftPaired _ _ rightPaired =>
        rw [beq_eq_beq (rel_eq pairing.functionsUnique leftPaired rightPaired)]
  | succ depth ih =>
      cases left <;> cases right <;> simp only [Heap.equalWithin]
      case array.array leftPaired _ _ rightPaired =>
        have leftItems := alike.items _ _ leftPaired
        have rightItems := alike.items _ _ rightPaired
        simp only [rel_eq pairing.arraysUnique leftPaired rightPaired, leftItems.length_eq,
          rightItems.length_eq, allEqual_eq leftItems rightItems fun _ _ _ _ => ih]
      case record.record leftPaired _ _ rightPaired =>
        rw [beq_eq_beq (rel_eq pairing.recordsUnique leftPaired rightPaired)]
      case function.function leftPaired _ _ rightPaired =>
        rw [beq_eq_beq (rel_eq pairing.functionsUnique leftPaired rightPaired)]

/-- The heaps need not have the same number of arrays, nor then the same bound. -/
theorem equal? {left₁ left₂ right₁ right₂ : Value} (left : left₁.Alike pairing left₂)
    (right : right₁.Alike pairing right₂) :
    heap₁.equal? left₁ right₁ = heap₂.equal? left₂ right₂ := by
  refine Option.ext fun answer => ?_
  simp only [equal?_eq_some_iff, alike.equalWithin _ left right]

theorem holdsEqual {items₁ items₂ : List Value}
    (items : List.Forall₂ (Value.Alike pairing) items₁ items₂) {sought₁ sought₂ : Value}
    (sought : sought₁.Alike pairing sought₂) :
    heap₁.holdsEqual sought₁ items₁ = heap₂.holdsEqual sought₂ items₂ := by
  induction items with
  | nil => rfl
  | cons held _ ih => simp only [Heap.holdsEqual, alike.equal? held sought, ih]

theorem contains {container₁ container₂ item₁ item₂ : Value}
    (container : container₁.Alike pairing container₂) (item : item₁.Alike pairing item₂) :
    Option.Rel (Agree pairing Eq) (heap₁.contains container₁ item₁)
      (heap₂.contains container₂ item₂) := by
  have refused := Agree.refused (@Eq Bool) (.nonIterable container)
  cases container with
  | @array array₁ array₂ paired =>
      simp only [Heap.contains, alike.holdsEqual (alike.items _ _ paired) item]
      cases heap₂.holdsEqual item₂ (heap₂.array array₂).toList with
      | none => exact .none
      | some held => exact .some (.ok rfl)
  | text text =>
      cases item with
      | text part => exact .some (.ok rfl)
      | none | number | bool | array | record | function => exact .some refused
  | @record record₁ record₂ paired =>
      cases item with
      | text name =>
          have found := alike.lookup paired name
          refine .some (.ok ?_)
          generalize heap₁.lookup record₁ name = found₁ at found ⊢
          generalize heap₂.lookup record₂ name = found₂ at found ⊢
          cases found <;> rfl
      | none | number | bool | array | record | function => exact .some refused
  | none | number | bool | function => exact .some refused

/-!
## Making and writing objects
-/

theorem newArray {items₁ items₂ : Array Value}
    (items : List.Forall₂ (Value.Alike pairing) items₁.toList items₂.toList) :
    Left pairing pairing.arrays (heap₁.newArray items₁) (heap₂.newArray items₂) := by
  have made : pairing.arrays ⟨heap₁.arrays.size⟩ ⟨heap₂.arrays.size⟩ := alike.nextArrays 0
  refine ⟨made, { alike with items := ?_, nextArrays := ?_ }⟩
  · intro array₁ array₂ paired
    rw [array_newArray_eq, array_newArray_eq]
    simp only [rel_eq pairing.arraysUnique paired made]
    split
    · exact items
    · exact alike.items array₁ array₂ paired
  · intro more
    have later := alike.nextArrays (1 + more)
    simpa only [Heap.newArray, Array.size_push, Nat.add_assoc] using later

theorem newList {items₁ items₂ : List Value}
    (items : List.Forall₂ (Value.Alike pairing) items₁ items₂) :
    Left pairing pairing.arrays (heap₁.newArray items₁.toArray)
      (heap₂.newArray items₂.toArray) :=
  alike.newArray items

/-- A new array of items that refer to no object. -/
theorem newPlain {α : Type} (given : List α) {item : α → Value}
    (plain : ∀ one, (item one).Plain) :
    Left pairing pairing.arrays (heap₁.newArray (given.map item).toArray)
      (heap₂.newArray (given.map item).toArray) := by
  refine alike.newList (List.forall₂_same.mpr fun value member => ?_)
  obtain ⟨one, _, rfl⟩ := List.mem_map.mp member
  exact (plain one).alike

theorem setItem {array₁ array₂ : ArrayRef} (paired : pairing.arrays array₁ array₂)
    (position : Nat) {value₁ value₂ : Value} (value : value₁.Alike pairing value₂) :
    (heap₁.setItem array₁ position value₁).Alike pairing
      (heap₂.setItem array₂ position value₂) := by
  refine { alike with items := ?_, nextArrays := ?_ }
  · intro read₁ read₂ readPaired
    rw [array_setItem, array_setItem]
    simp only [rel_eq pairing.arraysUnique readPaired paired]
    have items := alike.items read₁ read₂ readPaired
    split
    · rw [Array.toList_setIfInBounds, Array.toList_setIfInBounds]
      exact forall₂_set items position value
    · exact items
  · simpa only [Heap.setItem, Array.size_modify] using alike.nextArrays

theorem newRecord : Left pairing pairing.records (heap₁.newRecord .empty)
    (heap₂.newRecord .empty) := by
  have made : pairing.records ⟨heap₁.records.size⟩ ⟨heap₂.records.size⟩ := alike.nextRecords 0
  refine ⟨made, { alike with members := ?_, nextRecords := ?_ }⟩
  · intro record₁ record₂ paired
    rw [record_newRecord_eq, record_newRecord_eq]
    simp only [rel_eq pairing.recordsUnique paired made]
    split
    · exact .empty
    · exact alike.members record₁ record₂ paired
  · intro more
    have later := alike.nextRecords (1 + more)
    simpa only [Heap.newRecord, Array.size_push, Nat.add_assoc] using later

/-- A record is there if the one is that it stands for. -/
theorem present {record₁ record₂ : RecordRef} (paired : pairing.records record₁ record₂) :
    record₁.address < heap₁.records.size ↔ record₂.address < heap₂.records.size := by
  constructor
  · intro present
    refine Nat.lt_of_not_le fun absent => ?_
    obtain ⟨more, same⟩ := Nat.exists_eq_add_of_le absent
    have later := alike.nextRecords more
    rw [← same] at later
    obtain rfl := pairing.recordsUnique.1 paired later
    exact Nat.not_lt.mpr (Nat.le_add_right _ _) present
  · intro present
    refine Nat.lt_of_not_le fun absent => ?_
    obtain ⟨more, same⟩ := Nat.exists_eq_add_of_le absent
    have later := alike.nextRecords more
    rw [← same] at later
    obtain rfl := pairing.recordsUnique.2 paired later
    exact Nat.not_lt.mpr (Nat.le_add_right _ _) present

theorem modifyRecord {record₁ record₂ : RecordRef} (paired : pairing.records record₁ record₂)
    {change₁ change₂ : Record → Record}
    (changed : ∀ old₁ old₂, old₁.Alike pairing old₂ →
      (change₁ old₁).Alike pairing (change₂ old₂)) :
    (heap₁.modifyRecord record₁ change₁).Alike pairing (heap₂.modifyRecord record₂ change₂) := by
  refine { alike with members := ?_, nextRecords := ?_ }
  · intro read₁ read₂ readPaired
    have members := alike.members read₁ read₂ readPaired
    by_cases present : record₁.address < heap₁.records.size
    · rw [record_modifyRecord _ _ _ _ present,
        record_modifyRecord _ _ _ _ ((alike.present paired).mp present)]
      simp only [rel_eq pairing.recordsUnique readPaired paired]
      split
      · exact changed _ _ members
      · exact members
    · have absent₂ : ¬record₂.address < heap₂.records.size :=
        fun present₂ => present ((alike.present paired).mpr present₂)
      rw [modifyRecord_absent _ present, modifyRecord_absent _ absent₂]
      exact members
  · simpa only [Heap.modifyRecord, Array.size_modify] using alike.nextRecords

theorem setMember {record₁ record₂ : RecordRef} (paired : pairing.records record₁ record₂)
    (name : String) {value₁ value₂ : Value} (value : value₁.Alike pairing value₂) :
    (heap₁.setMember record₁ name value₁).Alike pairing
      (heap₂.setMember record₂ name value₂) :=
  alike.modifyRecord paired fun _ _ old => old.insert name value

theorem eraseMember {record₁ record₂ : RecordRef} (paired : pairing.records record₁ record₂)
    (name : String) :
    (heap₁.eraseMember record₁ name).Alike pairing (heap₂.eraseMember record₂ name) :=
  alike.modifyRecord paired fun _ _ old => old.erase name

theorem clearRecord {record₁ record₂ : RecordRef} (paired : pairing.records record₁ record₂) :
    (heap₁.clearRecord record₁).Alike pairing (heap₂.clearRecord record₂) :=
  alike.modifyRecord paired fun _ _ _ => .empty

theorem newFunction {function₁ function₂ : Function} (made : function₁.Alike pairing function₂)
    (plain : ∀ script entry, function₁.body = .script script entry → script.Plain) :
    Left pairing pairing.functions (heap₁.newFunction function₁)
      (heap₂.newFunction function₂) := by
  have paired : pairing.functions ⟨heap₁.functions.size⟩ ⟨heap₂.functions.size⟩ :=
    alike.nextFunctions 0
  refine ⟨paired, { alike with functions := ?_, nextFunctions := ?_, plain := ?_ }⟩
  · intro read₁ read₂ readPaired
    rw [function_newFunction_eq, function_newFunction_eq]
    simp only [rel_eq pairing.functionsUnique readPaired paired]
    split
    · exact made
    · exact alike.functions read₁ read₂ readPaired
  · intro more
    have later := alike.nextFunctions (1 + more)
    simpa only [Heap.newFunction, Array.size_push, Nat.add_assoc] using later
  · intro reference script entry body
    rw [function_newFunction_eq] at body
    split at body
    · exact plain script entry body
    · exact alike.plain reference script entry body

theorem duplicate {value₁ value₂ : Value} (value : value₁.Alike pairing value₂) :
    Left pairing (Value.Alike pairing) (heap₁.duplicate value₁) (heap₂.duplicate value₂) := by
  cases value with
  | array paired =>
      obtain ⟨made, grown⟩ := alike.newArray (alike.items _ _ paired)
      exact ⟨.array made, grown⟩
  | none => exact ⟨.none, alike⟩
  | number number => exact ⟨.number number, alike⟩
  | text text => exact ⟨.text text, alike⟩
  | bool truth => exact ⟨.bool truth, alike⟩
  | record paired => exact ⟨.record paired, alike⟩
  | function paired => exact ⟨.function paired, alike⟩

theorem setElement {object₁ object₂ index₁ index₂ value₁ value₂ : Value}
    (object : object₁.Alike pairing object₂) (index : index₁.Alike pairing index₂)
    (value : value₁.Alike pairing value₂) :
    Agree pairing (Heap.Alike pairing) (heap₁.setElement object₁ index₁ value₁)
      (heap₂.setElement object₂ index₂ value₂) := by
  have refused := Agree.refused (Heap.Alike pairing) (.nonIndexable object)
  cases object with
  | @array array₁ array₂ paired =>
      have positions := indexPosition index (heap₁.array array₁).size
      unfold Heap.setElement
      dsimp only
      rw [← alike.size_array paired]
      generalize ScriptEngine.indexPosition index₁ _ = position₁ at positions
      generalize ScriptEngine.indexPosition index₂ _ = position₂ at positions
      cases positions with
      | error causes => exact .error causes
      | ok same =>
          subst same
          exact .ok (alike.setItem paired _ value)
  | record paired =>
      cases index with
      | text name => exact .ok (alike.setMember paired name value)
      | none | number | bool | array | record | function => exact refused
  | none | number | text | bool | function => exact refused

theorem bindParameters {locals₁ locals₂ : RecordRef} (paired : pairing.records locals₁ locals₂)
    (parameters : List String) {arguments₁ arguments₂ : List Value}
    (arguments : List.Forall₂ (Value.Alike pairing) arguments₁ arguments₂) :
    (heap₁.bindParameters locals₁ parameters arguments₁).Alike pairing
      (heap₂.bindParameters locals₂ parameters arguments₂) := by
  induction parameters generalizing heap₁ heap₂ arguments₁ arguments₂ with
  | nil => exact alike
  | cons parameter parameters ih =>
      cases arguments with
      | nil => exact alike
      | cons argument rest =>
          obtain ⟨copy, grown⟩ := alike.duplicate argument
          exact ih (grown.setMember paired parameter copy) rest

/-!
## Operators
-/

theorem add {left₁ left₂ right₁ right₂ : Value} (left : left₁.Alike pairing left₂)
    (right : right₁.Alike pairing right₂) :
    Agree pairing (Left pairing (Value.Alike pairing)) (heap₁.add left₁ right₁)
      (heap₂.add left₂ right₂) := by
  have refused := Agree.refused (Left pairing (Value.Alike pairing))
    (.nonAddable left right)
  cases left <;> cases right <;> try exact refused
  case number.number left right => exact .ok ⟨.number (left + right), alike⟩
  case text.text left right => exact .ok ⟨.text (left ++ right), alike⟩
  case array.array leftPaired _ _ rightPaired =>
    have items := List.rel_append (alike.items _ _ leftPaired) (alike.items _ _ rightPaired)
    simp only [← Array.toList_append] at items
    obtain ⟨made, grown⟩ := alike.newArray items
    exact .ok ⟨.array made, grown⟩

end Heap.Alike

namespace Value.Alike

variable {left₁ left₂ right₁ right₂ : Value} (left : left₁.Alike pairing left₂)
  (right : right₁.Alike pairing right₂)

include left

theorem negate : Agree pairing (Value.Alike pairing) left₁.negate left₂.negate := by
  have refused := Agree.refused (Value.Alike pairing) (.nonNumeric left)
  cases left with
  | number number => exact .ok (.number (-number))
  | none | text | bool | array | record | function => exact refused

include right

theorem arithmetic (operation : Float → Float → Float) :
    Agree pairing (Value.Alike pairing) (Value.arithmetic operation left₁ right₁)
      (Value.arithmetic operation left₂ right₂) := by
  have refused := Agree.refused (Value.Alike pairing) (.nonNumerics left right)
  cases left <;> cases right <;> try exact refused
  case number.number left right => exact .ok (.number (operation left right))

theorem ordered (accepts : Ordering → Bool) :
    Agree pairing (Value.Alike pairing) (Value.ordered accepts left₁ right₁)
      (Value.ordered accepts left₂ right₂) := by
  have refused := Agree.refused (Value.Alike pairing) (.nonComparable left right)
  cases left <;> cases right <;> try exact refused
  case number.number left right =>
    unfold Value.ordered
    split
    · exact .ok (.bool _)
    · exact .ok (.bool false)
    · next unordered => exact (unordered left right rfl rfl).elim
  case text.text left right => exact .ok (.bool _)

end Value.Alike

namespace Heap.Alike

variable (alike : heap₁.Alike pairing heap₂)

include alike

theorem applyUnary (operator : UnaryOperator) {operand₁ operand₂ : Value}
    (operand : operand₁.Alike pairing operand₂) :
    Agree pairing (Value.Alike pairing) (heap₁.applyUnary operator operand₁)
      (heap₂.applyUnary operator operand₂) := by
  cases operator with
  | minus => exact operand.negate
  | not =>
      simp only [Heap.applyUnary, alike.isTruthy operand]
      exact .ok (.bool _)

theorem applyBinary (operator : BinaryOperator) {left₁ left₂ right₁ right₂ : Value}
    (left : left₁.Alike pairing left₂) (right : right₁.Alike pairing right₂) :
    Option.Rel (Agree pairing (Left pairing (Value.Alike pairing)))
      (heap₁.applyBinary operator left₁ right₁) (heap₂.applyBinary operator left₂ right₂) := by
  -- An operator that makes no array leaves the heaps as they are.
  have unchanged {answer₁ answer₂ : Except RuntimeCause Value}
      (agree : Agree pairing (Value.Alike pairing) answer₁ answer₂) :
      Agree pairing (Left pairing (Value.Alike pairing))
        (answer₁.map fun value => (value, heap₁)) (answer₂.map fun value => (value, heap₂)) :=
    agree.map fun _ _ value => ⟨value, alike⟩
  cases operator with
  | add => exact .some (alike.add left right)
  | subtract | multiply | divide | modulo => exact .some (unchanged (left.arithmetic right _))
  | lessThan | lessThanOrEqual | greaterThan | greaterThanOrEqual =>
      exact .some (unchanged (left.ordered right _))
  | equal | notEqual =>
      simp only [Heap.applyBinary, alike.equal? left right]
      cases heap₂.equal? left₂ right₂ with
      | none => exact .none
      | some same => exact .some (unchanged (.ok (.bool _)))
  | contained =>
      have contained := alike.contains right left
      simp only [Heap.applyBinary]
      generalize heap₁.contains right₁ left₁ = held₁ at contained ⊢
      generalize heap₂.contains right₂ left₂ = held₂ at contained ⊢
      cases contained with
      | none => exact .none
      | some held =>
          refine .some (unchanged (held.map fun truth₁ truth₂ same => ?_))
          subst same
          exact .bool _

theorem combine (operator : AssignOperator)
    {current₁ current₂ : Unit → Except RuntimeCause Value}
    (current : Agree pairing (Value.Alike pairing) (current₁ ()) (current₂ ()))
    {value₁ value₂ : Value} (value : value₁.Alike pairing value₂) :
    Agree pairing (Left pairing (Value.Alike pairing)) (operator.combine heap₁ current₁ value₁)
      (operator.combine heap₂ current₂ value₂) := by
  cases operator with
  | set => exact .ok (alike.duplicate value)
  | add =>
      simp only [AssignOperator.combine]
      generalize current₁ () = held₁ at current
      generalize current₂ () = held₂ at current
      cases current with
      | ok held => exact alike.add held value
      | error causes => exact .error causes
  | subtract =>
      simp only [AssignOperator.combine]
      generalize current₁ () = held₁ at current
      generalize current₂ () = held₂ at current
      cases current with
      | ok held => exact (held.arithmetic value _).map fun _ _ difference => ⟨difference, alike⟩
      | error causes => exact .error causes

/-!
## Errors
-/

theorem message {cause₁ cause₂ : RuntimeCause} (causes : cause₁.Alike pairing cause₂) :
    cause₁.message heap₁ = cause₂.message heap₂ := by
  cases causes with
  | nonNumeric value | nonRecord value | invalidCallee value | invalidArgument value
  | nonIterable value | nonIndexable value => exact congrArg (_ ++ ·) (alike.text value)
  | indexOutOfRange index => exact congrArg (_ ++ · ++ _ ++ _) (alike.text index)
  | nonNumerics left right | nonAddable left right | nonComparable left right =>
      exact congrArg₂ (_ ++ · ++ _ ++ · ++ _) (alike.text left) (alike.text right)
  | invalidAccess | undefinedMember | invalidArgumentCount | undefinedScope | jump
  | borrowedNamespace | timeLimit | notStopped | unbalancedResults => rfl

theorem headlineAndRemark {cause₁ cause₂ : RuntimeCause}
    (causes : cause₁.Alike pairing cause₂) :
    cause₁.headlineAndRemark heap₁ = cause₂.headlineAndRemark heap₂ := by
  cases causes with
  | nonNumeric value | nonRecord value | invalidCallee value | nonIterable value
  | nonIndexable value => exact congrArg (fun name => (_, name ++ _)) value.typeName
  | nonNumerics left right =>
      exact congrArg₂ (fun first second => (_, _ ++ first ++ _ ++ second ++ _)) left.typeName
        right.typeName
  | nonAddable left right | nonComparable left right =>
      exact congrArg₂ (fun first second => (_, first ++ _ ++ second ++ _)) left.typeName
        right.typeName
  | invalidArgument value => exact congrArg (fun text => (_, text ++ _)) (alike.text value)
  | indexOutOfRange index =>
      exact congrArg (fun text => (_, _ ++ text ++ _ ++ _)) (alike.text index)
  | invalidAccess | undefinedMember | invalidArgumentCount | undefinedScope | jump
  | borrowedNamespace | timeLimit | notStopped | unbalancedResults => rfl

end Heap.Alike

theorem RuntimeCause.Alike.code {cause₁ cause₂ : RuntimeCause}
    (causes : cause₁.Alike pairing cause₂) : cause₁.code = cause₂.code := by
  cases causes <;> rfl

/-- The errors have causes that are alike, and the same place. -/
structure RuntimeError.Alike (pairing : Pairing) (failure₁ failure₂ : RuntimeError) : Prop where
  cause : failure₁.cause.Alike pairing failure₂.cause
  span : failure₁.span = failure₂.span

namespace RuntimeError.Alike

theorem placed {cause₁ cause₂ : RuntimeCause} (causes : cause₁.Alike pairing cause₂)
    (span : Span) :
    (RuntimeError.placed cause₁ span).Alike pairing (RuntimeError.placed cause₂ span) :=
  ⟨causes, rfl⟩

variable {failure₁ failure₂ : RuntimeError} (failures : failure₁.Alike pairing failure₂)

include failures

theorem withDefaultSpan (span : Span) :
    (failure₁.withDefaultSpan span).Alike pairing (failure₂.withDefaultSpan span) :=
  ⟨failures.cause, congrArg (fun own : Option Span => some (own.getD span)) failures.span⟩

/-- Reports of errors that are alike are the same, with whatever source they are made. -/
theorem reports (alike : heap₁.Alike pairing heap₂) (lines : LineTable) (source : String) :
    failure₁.oneLine heap₁ lines = failure₂.oneLine heap₂ lines ∧
      failure₁.title heap₁ = failure₂.title heap₂ ∧
      failure₁.remark? heap₁ source = failure₂.remark? heap₂ source := by
  refine ⟨?_, ?_, ?_⟩
  · simp only [oneLine, failures.span, alike.message failures.cause]
  · simp only [title, failures.cause.code, alike.headlineAndRemark failures.cause]
  · have place : failure₁.reportedSpan = failure₂.reportedSpan :=
      congrArg (fun own : Option Span => own.getD (Span.between 0 0)) failures.span
    rw [remark?, remark?, place, alike.headlineAndRemark failures.cause]

end RuntimeError.Alike

end ScriptEngine
