import ScriptEngine.Proofs.Grammar.StatementPrinting
import ScriptEngine.Proofs.Recursive.Statement
import ScriptEngine.Proofs.Recursive.TermLaws

/-!
# Assignments of terms

What an assignment without calls does to a heap: it locates its target, evaluates the value,
combines it with what the target holds, and stores the result. To add to a target does the same
as to assign the sum of the target and the value, up to the names of new arrays, as long as
every comparison in it comes to an end (`TargetTerm.assign_expanded`).

The longer assignment evaluates its target twice. Since evaluating makes arrays and changes
none, what it reads is what the target holds, or a copy of that in new arrays. The latter comes
up only where the array that is written to is new itself. Then nothing that was there before is
changed.
-/

set_option autoImplicit false

namespace ScriptEngine

/-- Where in a heap an assignment puts its value. -/
inductive Location where
  | name (name : String)
  | member (record : RecordRef) (name : String)
  | element (object index : Value)

open HeapAction

namespace Location

variable (chain : ScopeChain)

/-- What the heap holds there. -/
def read (heap : Heap) : Location → Except RuntimeCause Value
  | .name identifier => heap.valueOfName chain identifier
  | .member record identifier => heap.valueOfMember record identifier
  | .element object index => heap.element object index

def write (heap : Heap) (value : Value) : Location → Except RuntimeCause Heap
  | .name identifier => .ok (heap.setMember chain.names identifier value)
  | .member record identifier => .ok (heap.setMember record identifier value)
  | .element object index => heap.setElement object index value

def store (location : Location) (value : Value) : HeapAction Unit :=
  attempt fun heap => (location.write chain heap value).map fun heap => ((), heap)

/-- Combines the value with what is held, and stores the result. -/
def receive (location : Location) (operator : AssignOperator) (given : Value) :
    HeapAction Unit := do
  let stored ← attempt fun heap => operator.combine heap (fun _ => location.read chain heap) given
  location.store chain stored

end Location

namespace AssignOperator

/-- The operator with which the old value and the new one are combined. -/
def binary? : AssignOperator → Option BinaryOperator
  | .set => none
  | .add => some .add
  | .subtract => some .subtract

/-- What is made of the old value and the new one. -/
def join (operator : AssignOperator) (heap : Heap) (held given : Value) :
    Except RuntimeCause (Value × Heap) :=
  operator.combine heap (fun _ => .ok held) given

end AssignOperator

namespace Location

variable (chain : ScopeChain)

/-- Stores the sum or the difference of two values. -/
def storeResult (location : Location) (operator : AssignOperator) (held given : Value) :
    HeapAction Unit := do
  let result ← attempt fun heap => operator.join heap held given
  location.store chain result

/-- Stores a copy of the sum or the difference. -/
def storeCopied (location : Location) (operator : AssignOperator) (held given : Value) :
    HeapAction Unit := do
  let result ← attempt fun heap =>
    (operator.join heap held given).map fun result => result.2.duplicate result.1
  location.store chain result

end Location

namespace TargetTerm

variable (chain : ScopeChain)

/-- Finds out where the target is. -/
def locate : TargetTerm → HeapAction Location
  | .name identifier => return .name identifier
  | .member object identifier => do
      let holder ← object.evaluate chain
      match holder.recordRef? with
      | some record => return .member record identifier
      | none => HeapAction.fail
  | .element object index => do
      let holder ← object.evaluate chain
      let position ← index.evaluate chain
      return .element holder position

/-- The expression that reads the target. -/
def read : TargetTerm → Term
  | .name identifier => .name identifier
  | .member object identifier => .member object identifier
  | .element object index => .element object index

/-- Executes an assignment. -/
def assign (target : TargetTerm) (operator : AssignOperator) (value : Term) :
    HeapAction Unit := do
  let location ← target.locate chain
  let given ← value.evaluate chain
  location.receive chain operator given

end TargetTerm

variable {chain : ScopeChain} {heap grown heap₁ heap₂ : Heap} {pairing : Pairing}

/-!
## What stays the same as the heap grows
-/

/-- Two heaps that have grown from the same one are alike. What it has stands for itself. -/
theorem Heap.Closed.alike_of_extends (closed : heap.Closed) (grows₁ : heap.Extends heap₁)
    (grows₂ : heap.Extends heap₂) :
    ∃ pairing : Pairing, pairing.Fixes heap ∧ heap₁.Alike pairing heap₂ := by
  have same := Heap.alike_refl closed.scripts
  exact ⟨_, (same.carries_rebased grows₁ grows₂).fixes (Pairing.fixes_identity heap),
    same.rebase grows₁ grows₂ closed⟩

theorem Heap.Closed.sameUpToNew (closed : heap.Closed) (grows₁ : heap.Extends heap₁)
    (grows₂ : heap.Extends heap₂) : heap.SameUpToNew heap₁ heap₂ := by
  obtain ⟨pairing, fixes, alike⟩ := closed.alike_of_extends grows₁ grows₂
  exact ⟨pairing, fixes, alike.toSameContents⟩

/-- Writing to a new array changes nothing that was there before. -/
theorem Heap.Extends.setItem (grows : heap.Extends grown) {array : ArrayRef}
    (new : heap.arrays.size ≤ array.address) (position : Nat) (value : Value) :
    heap.Extends (grown.setItem array position value) := by
  refine ⟨⟨grows.objects.functions, grows.objects.records⟩, ?_⟩
  rw [Appends, List.prefix_iff_getElem?]
  intro old there
  have kept := List.prefix_iff_getElem?.mp grows.arrays old there
  have other : array.address ≠ old := by
    rw [Array.length_toList] at there
    exact Nat.ne_of_gt (Nat.lt_of_lt_of_le there new)
  simp only [Heap.setItem, Array.toList_modify, List.getElem?_modify, other, kept]
  rfl

namespace Location

/-- The heap has the arrays of the location. -/
def Present (heap : Heap) : Location → Prop
  | .element object index => object.Present heap ∧ index.Present heap
  | .name _ | .member .. => True

/-- What is held in a closed heap is there. -/
theorem present_read (closed : heap.Closed) (location : Location) {value : Value}
    (held : location.read chain heap = .ok value) : value.Present heap := by
  cases location with
  | name identifier =>
      simp only [read, Heap.valueOfName] at held
      split at held
      · next found =>
          cases held
          obtain ⟨record, _, inside⟩ := List.exists_of_findSome?_eq_some found
          exact closed.lookup inside
      · cases held
  | member record identifier =>
      simp only [read, Heap.valueOfMember] at held
      split at held
      · next found =>
          cases held
          exact closed.lookup found
      · cases held
  | element object index => exact closed.element held

section

variable {location : Location} (there : location.Present heap)

include there

/-- In heaps that are alike the same is held at the location, if it stands for itself. -/
theorem alike_read (chain : ScopeChain) (fixes : pairing.Fixes heap)
    (alike : heap₁.Alike pairing heap₂) :
    Agree pairing (Value.Alike pairing) (location.read chain heap₁)
      (location.read chain heap₂) := by
  cases location with
  | name identifier =>
      have chains : List.Forall₂ pairing.records chain.toList chain.toList :=
        List.forall₂_same.mpr fun record _ => fixes.records record
      have found := alike.lookupChain chains identifier
      simp only [read, Heap.valueOfName]
      generalize heap₁.lookupChain _ identifier = found₁ at found
      generalize heap₂.lookupChain _ identifier = found₂ at found
      cases found with
      | none => exact .error (.invalidAccess identifier)
      | some value => exact .ok value
  | member record identifier => exact alike.member (fixes.records record) identifier
  | element object index => exact alike.element (fixes.value there.1) (fixes.value there.2)

theorem alike_write (chain : ScopeChain) (fixes : pairing.Fixes heap)
    (alike : heap₁.Alike pairing heap₂)
    {value₁ value₂ : Value} (value : value₁.Alike pairing value₂) :
    Agree pairing (Heap.Alike pairing) (location.write chain heap₁ value₁)
      (location.write chain heap₂ value₂) := by
  cases location with
  | name identifier => exact .ok (alike.setMember (fixes.records _) identifier value)
  | member record identifier => exact .ok (alike.setMember (fixes.records record) identifier value)
  | element object index =>
      exact alike.setElement (fixes.value there.1) (fixes.value there.2) value

/-- New arrays make no difference to what is held. -/
theorem read_of_extends (chain : ScopeChain) (closed : heap.Closed) (grows : heap.Extends grown) :
    (location.read chain grown).toOption = (location.read chain heap).toOption := by
  obtain ⟨pairing, fixes, alike⟩ := closed.alike_of_extends (.refl heap) grows
  have same := alike_read there chain fixes alike
  generalize found : location.read chain heap = held at same
  generalize location.read chain grown = again at same
  cases same with
  | error causes => rfl
  | ok values =>
      rw [fixes.eq_of_alike values (present_read closed location found)]

/-- What is held at a location that was there has been there too. -/
theorem present_of_extends (closed : heap.Closed) (grows : heap.Extends grown) {value : Value}
    (held : location.read chain grown = .ok value) : value.Present heap := by
  have same := read_of_extends there chain closed grows
  rw [held] at same
  cases found : location.read chain heap with
  | error cause =>
      rw [found] at same
      cases same
  | ok before =>
      rw [found] at same
      cases same
      exact present_read closed location found

end

theorem present_of_indexPosition {index : Value} {length position : Nat}
    (found : indexPosition index length = .ok position) (heap : Heap) : index.Present heap := by
  cases index with
  | number => trivial
  | none | text | bool | array | record | function => cases found

/-- If something is held at a location that is not there, then this is an item of an array, and
the array can be written to. -/
theorem new_of_read {location : Location} {value : Value}
    (held : location.read chain heap = .ok value) (there : location.Present heap)
    {old : Heap} (new : ¬ location.Present old) :
    ∃ array position, old.arrays.size ≤ array.address ∧
      ∀ grown stored, heap.Extends grown →
        location.write chain grown stored = .ok (grown.setItem array position stored) := by
  cases location with
  | name | member => exact (new trivial).elim
  | element object index =>
      have indexed {length position : Nat} (found : indexPosition index length = .ok position) :
          ¬ object.Present old := fun present =>
        new ⟨present, present_of_indexPosition found old⟩
      cases object with
      | array array =>
          simp only [read, Heap.element] at held
          split at held
          · next position found =>
              refine ⟨array, position, Nat.le_of_not_lt (indexed found), ?_⟩
              intro grown stored grows
              simp only [write, Heap.setElement, grows.arrays.array there.1, found]
          · cases held
      | text text =>
          simp only [read, Heap.element] at held
          split at held
          · next found => exact (indexed found trivial).elim
          · cases held
      | record record =>
          cases index with
          | text => exact (new ⟨trivial, trivial⟩).elim
          | none | number | bool | array | record | function => cases held
      | none | number | bool | function => cases held

end Location

namespace HeapAction

variable {α β γ δ : Type} {related : α × Heap → β × Heap → Prop}
  {others : γ × Heap → δ × Heap → Prop}

theorem attempt_of_ok {action : Heap → Except RuntimeCause (α × Heap)} {left : α × Heap}
    (worked : action heap = .ok left) : attempt action heap = .value left := by
  simp only [attempt, compute, worked]

theorem attempt_of_error {action : Heap → Except RuntimeCause (α × Heap)} {cause : RuntimeCause}
    (failed : action heap = .error cause) : attempt action heap = .failed := by
  simp only [attempt, compute, failed]

theorem ok_of_attempt {action : Heap → Except RuntimeCause (α × Heap)} {left : α × Heap}
    (given : attempt action heap = .value left) : action heap = .ok left := by
  cases answer : action heap with
  | error cause =>
      rw [attempt_of_error answer] at given
      cases given
  | ok answer' =>
      rw [attempt_of_ok answer] at given
      exact congrArg Except.ok (Outcome.value.inj given)

theorem look_of_ok {read : Heap → Except RuntimeCause α} {value : α}
    (found : read heap = .ok value) : look read heap = .value (value, heap) :=
  attempt_of_ok (by rw [found]; rfl)

theorem look_of_error {read : Heap → Except RuntimeCause α} {cause : RuntimeCause}
    (failed : read heap = .error cause) : look read heap = .failed :=
  attempt_of_error (by rw [failed]; rfl)

theorem look_of_some {read : Heap → Except RuntimeCause α} {value : α}
    (found : (read heap).toOption = some value) : look read heap = .value (value, heap) := by
  cases answer : read heap with
  | error cause =>
      rw [answer] at found
      cases found
  | ok other =>
      rw [answer] at found
      cases found
      exact look_of_ok answer

theorem look_of_none {read : Heap → Except RuntimeCause α}
    (missing : (read heap).toOption = none) : look read heap = .failed := by
  cases answer : read heap with
  | error cause => exact look_of_error answer
  | ok other =>
      rw [answer] at missing
      cases missing

variable {action : HeapAction α} {following : α → HeapAction γ}

theorem bind_of_failed (failed : action heap = .failed) :
    (action >>= following) heap = .failed := by
  simp only [Bind.bind, StateT.bind, failed, Outcome.bind]

theorem bind_of_endless (endless : action heap = .endless) :
    (action >>= following) heap = .endless := by
  simp only [Bind.bind, StateT.bind, endless, Outcome.bind]

theorem bind_of_value {result : α} (given : action heap = .value (result, grown)) :
    (action >>= following) heap = following result grown := by
  simp only [Bind.bind, StateT.bind, given, Outcome.bind]

/-- What two actions leave is related if it is so after each of their two parts. -/
theorem rel_bind {action₁ : HeapAction α} {action₂ : HeapAction β}
    {following₁ : α → HeapAction γ} {following₂ : β → HeapAction δ}
    (first : Outcome.Rel related (action₁ heap₁) (action₂ heap₂))
    (rest : ∀ result₁ grown₁ result₂ grown₂, action₁ heap₁ = .value (result₁, grown₁) →
      action₂ heap₂ = .value (result₂, grown₂) → related (result₁, grown₁) (result₂, grown₂) →
      Outcome.Rel others (following₁ result₁ grown₁) (following₂ result₂ grown₂)) :
    Outcome.Rel others ((action₁ >>= following₁) heap₁) ((action₂ >>= following₂) heap₂) := by
  simp only [Bind.bind, StateT.bind]
  generalize action₁ heap₁ = answer₁ at first rest
  generalize action₂ heap₂ = answer₂ at first rest
  cases first with
  | failed => exact .failed
  | endless => exact .endless
  | @value left₁ left₂ left => exact rest _ _ _ _ rfl rfl left

end HeapAction

/-!
## Sums and differences
-/

variable {operator : AssignOperator} {binary : BinaryOperator}

/-- An operator that looks at the old value fails without one. -/
theorem AssignOperator.combine_eq (same : operator.binary? = some binary) (heap : Heap)
    (current : Except RuntimeCause Value) (given : Value) :
    operator.combine heap (fun _ => current) given =
      current.bind fun held => operator.join heap held given := by
  cases operator with
  | set => cases same
  | add | subtract => cases current <;> rfl

/-- The sum and the difference are those of the operators in expressions. -/
theorem AssignOperator.applyBinary_eq (same : operator.binary? = some binary) (heap : Heap)
    (held given : Value) :
    heap.applyBinary binary held given = some (operator.join heap held given) := by
  cases operator <;> cases same <;> rfl

/-- Whether there is a sum or a difference shows in the kinds of the operands. -/
theorem AssignOperator.rel_join (same : operator.binary? = some binary)
    {first second : Pairing} {held₁ held₂ given₁ given₂ : Value} (held : held₁.Alike first held₂)
    (given : given₁.Alike second given₂) :
    Outcome.Rel (fun _ _ => True) (attempt (fun heap => operator.join heap held₁ given₁) heap₁)
      (attempt (fun heap => (operator.join heap held₂ given₂).map
        fun sum => sum.2.duplicate sum.1) heap₂) := by
  cases operator with
  | set => cases same
  | add | subtract =>
      cases held <;> cases given <;> first | exact .failed | exact .value trivial

/-- An array is made in the one heap, and its copy in the other one. -/
theorem Heap.Alike.newArray_copied (alike : heap₁.Alike pairing heap₂) (closed : heap₁.Closed)
    {items₁ items₂ : Array Value} (present : ∀ item ∈ items₁, item.Present heap₁)
    (items : List.Forall₂ (Value.Alike pairing) items₁.toList items₂.toList) :
    ∃ later : Pairing, pairing.Carries later heap₁ ∧
      Left later (Value.Alike later)
        (.array (heap₁.newArray items₁).1, (heap₁.newArray items₁).2)
        ((heap₂.newArray items₂).2.duplicate (.array (heap₂.newArray items₂).1)) := by
  have copied : heap₂.Extends (heap₂.newArray items₂).2 :=
    ⟨keepsObjects_newArray _ _, appends_newArray _ _⟩
  have carries := alike.carries_rebased (.refl heap₁) copied
  have carried : List.Forall₂ (Value.Alike (alike.rebased (.refl heap₁) copied)) items₁.toList
      items₂.toList := by
    have there := fun item (member : item ∈ items₁.toList) =>
      present item (Array.mem_def.mpr member)
    refine ((List.forall₂_and_left _ _).mpr ⟨there, items⟩).imp fun item₁ item₂ item => ?_
    exact carries.value item.2 item.1
  refine ⟨_, carries, ?_⟩
  simp only [Heap.duplicate, Heap.array_newArray]
  obtain ⟨made, last⟩ := (alike.rebase (.refl heap₁) copied closed).newArray carried
  exact ⟨.array made, last⟩

/-- A sum or a difference and the copy of another one are alike if the operands are. -/
theorem AssignOperator.rel_duplicate (same : operator.binary? = some binary)
    (alike : heap₁.Alike pairing heap₂) (closed : heap₁.Closed)
    {held₁ held₂ given₁ given₂ : Value} (held : held₁.Alike pairing held₂)
    (given : given₁.Alike pairing given₂) :
    Outcome.Rel (fun left₁ left₂ => ∃ later : Pairing, pairing.Carries later heap₁ ∧
        Left later (Value.Alike later) left₁ left₂)
      (attempt (fun heap => operator.join heap held₁ given₁) heap₁)
      (attempt (fun heap => (operator.join heap held₂ given₂).map
        fun sum => sum.2.duplicate sum.1) heap₂) := by
  have carries := Pairing.Carries.refl pairing heap₁
  cases operator with
  | set => cases same
  | add =>
      cases held <;> cases given <;> try exact .failed
      case number.number left right => exact .value ⟨_, carries, .number (left + right), alike⟩
      case text.text left right => exact .value ⟨_, carries, .text (left ++ right), alike⟩
      case array.array left₁ left₂ left right₁ right₂ right =>
        have items := List.rel_append (alike.items _ _ left) (alike.items _ _ right)
        simp only [← Array.toList_append] at items
        refine .value (alike.newArray_copied closed (fun item member => ?_) items)
        rcases Array.mem_append.mp member with first | second
        · exact closed.items left₁ item first
        · exact closed.items right₁ item second
  | subtract =>
      cases held <;> cases given <;> try exact .failed
      case number.number left right => exact .value ⟨_, carries, .number (left - right), alike⟩

/-!
## Locating and reading
-/

namespace TargetTerm

/-- The target has no calls. -/
def CallFree (target : TargetTerm) : Prop :=
  target.read.CallFree

/-- To read a target is to locate it and to look up what is held there. -/
theorem evaluate_read (target : TargetTerm) :
    target.read.evaluate chain =
      target.locate chain >>= fun location => look fun heap => location.read chain heap := by
  cases target with
  | name identifier =>
      funext heap
      simp only [read, Term.evaluate, locate, pure_bind, look, attempt, compute, Location.read,
        Heap.valueOfName]
      cases heap.lookupChain chain.toList identifier <;> rfl
  | member object identifier =>
      simp only [read, Term.evaluate, locate, bind_assoc]
      congr 1
      funext holder heap
      unfold HeapAction.lookupMember
      cases holder.recordRef? with
      | none => rfl
      | some record =>
          simp only [pure_bind, look, attempt, compute, Location.read, Heap.valueOfMember]
          cases heap.lookup record identifier <;> rfl
  | element object index =>
      simp only [read, Term.evaluate, locate, bind_assoc, pure_bind, Location.read]

/-- What is located is there. -/
theorem gains_locate (target : TargetTerm) (free : target.CallFree) (closed : heap.Closed) :
    Gains (fun location after => location.Present after) (target.locate chain) heap := by
  cases target with
  | name identifier => exact .pure closed trivial
  | member object identifier =>
      refine .bind (Term.gains_evaluate object free closed) fun holder after gains _ => ?_
      split
      · exact .pure gains.closed trivial
      · exact .fail
  | element object index =>
      obtain ⟨objectFree, indexFree⟩ := free
      refine .bind (Term.gains_evaluate object objectFree closed) fun holder after gains there => ?_
      refine .bind (Term.gains_evaluate index indexFree gains.closed)
        fun position last more held => ?_
      exact .pure more.closed ⟨there.mono more.size, held⟩

/-- What is held can be looked up before the value is evaluated, unless there is nothing and the
value is never there. -/
theorem look_first {α : Type} {location : Location} (there : location.Present heap)
    (closed : heap.Closed) {value : Term} (free : value.CallFree)
    (following : Value → Value → HeapAction α) :
    (value.evaluate chain heap = .endless ∧ ∃ cause, location.read chain heap = .error cause) ∨
    (value.evaluate chain >>= fun given =>
        look (fun heap => location.read chain heap) >>= fun held => following held given) heap =
      (look (fun heap => location.read chain heap) >>= fun held =>
        value.evaluate chain >>= fun given => following held given) heap := by
  cases evaluated : value.evaluate chain heap with
  | endless =>
      cases found : location.read chain heap with
      | error cause => exact .inl ⟨rfl, cause, rfl⟩
      | ok held =>
          rw [bind_of_endless evaluated, bind_of_value (look_of_ok found),
            bind_of_endless evaluated]
          exact .inr rfl
  | failed =>
      rw [bind_of_failed evaluated]
      cases found : location.read chain heap with
      | error cause => exact .inr (bind_of_failed (look_of_error found)).symm
      | ok held =>
          rw [bind_of_value (look_of_ok found), bind_of_failed evaluated]
          exact .inr rfl
  | value answer =>
      obtain ⟨given, grown⟩ := answer
      have gains := (Term.gains_evaluate value free closed given grown evaluated).1
      have same := Location.read_of_extends there chain closed gains.toExtends
      rw [bind_of_value evaluated]
      cases found : (location.read chain heap).toOption with
      | none =>
          rw [bind_of_failed (look_of_none (same.trans found)),
            bind_of_failed (look_of_none found)]
          exact .inr rfl
      | some held =>
          rw [bind_of_value (look_of_some (same.trans found)),
            bind_of_value (look_of_some found), bind_of_value evaluated]
          exact .inr rfl

theorem assign_eq (same : operator.binary? = some binary) (target : TargetTerm) (value : Term) :
    target.assign chain operator value =
      target.locate chain >>= fun location => value.evaluate chain >>= fun given =>
        look (fun heap => location.read chain heap) >>= fun held =>
          location.storeResult chain operator held given := by
  unfold assign
  congr 1
  funext location
  congr 1
  funext given heap
  simp only [Location.receive, operator.combine_eq same, Location.storeResult, Bind.bind,
    StateT.bind, look, attempt, compute]
  cases location.read chain heap <;> rfl

theorem assign_read_eq (same : operator.binary? = some binary) (target : TargetTerm)
    (value : Term) :
    target.assign chain .set (.middle (.binary binary) target.read value) =
      target.locate chain >>= fun location => target.read.evaluate chain >>= fun held =>
        value.evaluate chain >>= fun given => location.storeCopied chain operator held given := by
  simp only [assign, Term.evaluate, bind_assoc]
  congr 1
  funext location
  congr 1
  funext held
  congr 1
  funext given heap
  simp only [Location.receive, AssignOperator.combine, Location.storeCopied, Bind.bind,
    StateT.bind, attempt, compute, operator.applyBinary_eq same]
  cases operator.join heap held given <;> rfl

end TargetTerm

/-!
## The two assignments
-/

theorem AssignOperator.extends_join (same : operator.binary? = some binary)
    {held given result : Value} (joined : operator.join heap held given = .ok (result, grown)) :
    heap.Extends grown := by
  have applied := (operator.applyBinary_eq same heap held given).trans (congrArg some joined)
  exact ⟨Heap.keepsObjects_applyBinary applied, Heap.appends_applyBinary applied⟩

theorem AssignOperator.extends_copied (same : operator.binary? = some binary)
    {held given result : Value}
    (joined : (operator.join heap held given).map (fun sum => sum.2.duplicate sum.1) =
      .ok (result, grown)) : heap.Extends grown := by
  cases sums : operator.join heap held given with
  | error cause =>
      rw [sums] at joined
      cases joined
  | ok sum =>
      rw [sums] at joined
      have stored : sum.2.duplicate sum.1 = (result, grown) := Except.ok.inj joined
      have copied : sum.2.Extends (sum.2.duplicate sum.1).2 :=
        ⟨Heap.keepsObjects_duplicate _ _, Heap.appends_duplicate _ _⟩
      rw [stored] at copied
      exact (extends_join same sums).trans copied

section

variable {old : Heap} {location : Location} {held₁ held₂ given₁ given₂ : Value}
  (same : operator.binary? = some binary)

include same

/-- To a location that was there before, both assignments write alike. -/
theorem rel_store_old (there : location.Present old) (closed : heap₁.Closed)
    (size : old.arrays.size ≤ heap₁.arrays.size) (fixes : pairing.Fixes old)
    (alike : heap₁.Alike pairing heap₂) (held : held₁.Alike pairing held₂)
    (given : given₁.Alike pairing given₂) :
    Outcome.Rel (fun left₁ left₂ => old.SameUpToNew left₁.2 left₂.2)
      (location.storeResult chain operator held₁ given₁ heap₁)
      (location.storeCopied chain operator held₂ given₂ heap₂) := by
  refine rel_bind (operator.rel_duplicate same alike closed held given) ?_
  intro stored₁ grown₁ stored₂ grown₂ _ _ ⟨later, carries, stored, grown⟩
  have fixesLater := (carries.mono size).fixes fixes
  have written := Location.alike_write there chain fixesLater grown stored
  simp only [Location.store, attempt, compute]
  generalize location.write chain grown₁ stored₁ = answer₁ at written
  generalize location.write chain grown₂ stored₂ = answer₂ at written
  cases written with
  | error causes => exact .failed
  | ok last => exact .value ⟨later, fixesLater, last.toSameContents⟩

/-- An array that is new is written to by both assignments or by none, and what was there before
is left alone. -/
theorem rel_store_new (closed : old.Closed) (grows₁ : old.Extends heap₁)
    (grows₂ : old.Extends heap₂) {array : ArrayRef} {position : Nat}
    (new : old.arrays.size ≤ array.address) {base : Heap}
    (written : ∀ grown stored, base.Extends grown →
      location.write chain grown stored = .ok (grown.setItem array position stored))
    (first : base.Extends heap₁) (second : base.Extends heap₂) {early late : Pairing}
    (held : held₁.Alike early held₂) (given : given₁.Alike late given₂) :
    Outcome.Rel (fun left₁ left₂ => old.SameUpToNew left₁.2 left₂.2)
      (location.storeResult chain operator held₁ given₁ heap₁)
      (location.storeCopied chain operator held₂ given₂ heap₂) := by
  refine rel_bind (operator.rel_join same held given) ?_
  intro stored₁ grown₁ stored₂ grown₂ joined₁ joined₂ _
  have more₁ := operator.extends_join same (ok_of_attempt joined₁)
  have more₂ := operator.extends_copied same (ok_of_attempt joined₂)
  simp only [Location.store, attempt, compute, written _ _ (first.trans more₁),
    written _ _ (second.trans more₂)]
  exact .value (closed.sameUpToNew ((grows₁.trans more₁).setItem new position stored₁)
    ((grows₂.trans more₂).setItem new position stored₂))

end

/-- When the target is evaluated once more, what is read is alike. -/
theorem TargetTerm.rel_read_again (closed : heap.Closed) {target : TargetTerm}
    (free : target.CallFree) {location : Location} {located : Heap}
    (found : target.locate chain heap = .value (location, located)) :
    Outcome.Rel (fun left₁ left₂ => left₁.2 = located ∧ located.Gains left₂.2 ∧
        location.read chain located = .ok left₁.1 ∧
        ∃ pairing : Pairing, pairing.Fixes heap ∧ left₁.1.Alike pairing left₂.1)
      (look (fun heap => location.read chain heap) located)
      (target.read.evaluate chain located) := by
  obtain ⟨gains, _⟩ := gains_locate target free closed location located found
  obtain ⟨pairing, fixes, alike⟩ := closed.alike_of_extends (.refl heap) gains.toExtends
  have read : Outcome.Rel (Left pairing (Value.Alike pairing)) (target.read.evaluate chain heap)
      (target.read.evaluate chain located) :=
    Term.alike_evaluate fixes.records target.read free heap located alike
  have looked : target.read.evaluate chain heap =
      look (fun heap => location.read chain heap) located := by
    rw [evaluate_read]
    exact bind_of_value found
  have again : ∀ value after, target.read.evaluate chain located = .value (value, after) →
      located.Gains after ∧ value.Present after := Term.gains_evaluate target.read free gains.closed
  rw [looked] at read
  generalize target.read.evaluate chain located = answer at read again ⊢
  cases held : location.read chain located with
  | error cause =>
      rw [look_of_error held] at read ⊢
      cases read
      exact .failed
  | ok value =>
      rw [look_of_ok held] at read ⊢
      cases read with
      | value left => exact .value ⟨rfl, (again _ _ rfl).1, rfl, pairing, fixes, left.1⟩

/-- The target holds nothing, but that is never noticed: the value is evaluated first, which goes
on forever. -/
def TargetTerm.NeverMissed (chain : ScopeChain) (target : TargetTerm) (value : Term) (heap : Heap) :
    Prop :=
  ∃ location located cause, target.locate chain heap = .value (location, located) ∧
    location.read chain located = .error cause ∧ value.evaluate chain located = .endless

/-- To add to a target, or to subtract from it, is to assign the sum or the difference of what it
holds and of the value. Both assignments fail, or both leave the same heap, up to the names of
arrays that were not there before, or both go on forever. There is one exception: if the target
holds nothing and the value is never there, then the longer assignment fails, since it looks at
the target first, and the other one goes on forever. -/
theorem TargetTerm.assign_expanded (closed : heap.Closed) {target : TargetTerm}
    (free : target.CallFree) {value : Term} (valueFree : value.CallFree)
    (same : operator.binary? = some binary) :
    Outcome.Rel (fun left₁ left₂ => heap.SameUpToNew left₁.2 left₂.2)
        (target.assign chain operator value heap)
        (target.assign chain .set (.middle (.binary binary) target.read value) heap) ∨
      target.assign chain operator value heap = .endless ∧
        target.assign chain .set (.middle (.binary binary) target.read value) heap = .failed ∧
        target.NeverMissed chain value heap := by
  rw [assign_eq same, assign_read_eq same]
  cases found : target.locate chain heap with
  | failed =>
      rw [bind_of_failed found, bind_of_failed found]
      exact .inl .failed
  | endless =>
      rw [bind_of_endless found, bind_of_endless found]
      exact .inl .endless
  | value answer =>
      obtain ⟨location, located⟩ := answer
      obtain ⟨gains, there⟩ := gains_locate target free closed location located found
      have reread := rel_read_again closed free found
      rw [bind_of_value found, bind_of_value found]
      rcases look_first there gains.closed valueFree
        (fun held given => location.storeResult chain operator held given) with
        ⟨endless, cause, nothing⟩ | swapped
      · refine .inr ⟨bind_of_endless endless, bind_of_failed ?_,
          location, located, cause, found, nothing, endless⟩
        rw [look_of_error nothing] at reread
        generalize target.read.evaluate chain located = answer at reread ⊢
        cases reread
        rfl
      rw [swapped]
      refine .inl (rel_bind reread ?_)
      intro held₁ _ held₂ again _ _ ⟨sameHeap, gainsAgain, read, early, fixesEarly, held⟩
      obtain rfl : _ = located := sameHeap
      obtain ⟨late, fixes, alike⟩ :=
        gains.closed.alike_of_extends (.refl _) gainsAgain.toExtends
      refine rel_bind (Term.alike_evaluate fixes.records value valueFree _ again alike) ?_
      intro given₁ grown₁ given₂ grown₂ evaluated₁ evaluated₂ ⟨given, alikeLate⟩
      have more₁ := (Term.gains_evaluate value valueFree gains.closed _ _ evaluated₁).1
      have more₂ := (Term.gains_evaluate value valueFree gainsAgain.closed _ _ evaluated₂).1
      by_cases old : location.Present heap
      · have oldHeld := Location.present_of_extends old closed gains.toExtends read
        obtain rfl := fixesEarly.eq_of_alike held oldHeld
        exact rel_store_old same old more₁.closed (gains.trans more₁).size (fixes.mono gains.size)
          alikeLate (fixes.value (oldHeld.mono gains.size)) given
      · obtain ⟨array, position, new, written⟩ := Location.new_of_read read there old
        exact rel_store_new same closed (gains.trans more₁).toExtends
          ((gains.trans gainsAgain).trans more₂).toExtends new written more₁.toExtends
          (gainsAgain.trans more₂).toExtends held given

end ScriptEngine
