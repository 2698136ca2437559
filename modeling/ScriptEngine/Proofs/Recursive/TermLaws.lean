import ScriptEngine.Proofs.Control.Alike
import ScriptEngine.Proofs.Control.Present
import ScriptEngine.Proofs.Recursive.Term
import ScriptEngine.Proofs.Value.Among
import ScriptEngine.Proofs.Value.Renamed

/-!
# What evaluating a term leaves

Evaluating a term makes arrays at most, and gives a value that is there
(`Term.gains_evaluate`). In heaps that are alike it does the same (`Term.alike_evaluate`): so
it does not matter how many arrays were made before that nothing refers to.
-/

set_option autoImplicit false

namespace ScriptEngine

/-- The heap is closed again, and has new arrays at most. -/
structure Heap.Gains (before after : Heap) : Prop extends Heap.Extends before after where
  closed : after.Closed

namespace Heap.Gains

variable {first second third : Heap}

theorem refl (closed : first.Closed) : first.Gains first :=
  ⟨.refl first, closed⟩

theorem trans (early : first.Gains second) (late : second.Gains third) : first.Gains third :=
  ⟨early.toExtends.trans late.toExtends, late.closed⟩

theorem size (gains : first.Gains second) : first.arrays.size ≤ second.arrays.size :=
  gains.arrays.size

end Heap.Gains

/-- Both outcomes are values that are related, or both are failures, or both are endless. -/
inductive Outcome.Rel {α β : Type} (related : α → β → Prop) : Outcome α → Outcome β → Prop where
  | value {left : α} {right : β} (results : related left right) :
      Rel related (.value left) (.value right)
  | failed : Rel related .failed .failed
  | endless : Rel related .endless .endless

namespace HeapAction

variable {α β γ δ : Type} {pairing : Pairing} {heap : Heap}

/-- From heaps that are alike the actions give results that are related and leave heaps that are
alike, or both of them fail, or both go on forever. -/
def Alike (pairing : Pairing) (related : α → β → Prop) (action₁ : HeapAction α)
    (action₂ : HeapAction β) : Prop :=
  ∀ heap₁ heap₂ : Heap, heap₁.Alike pairing heap₂ →
    Outcome.Rel (Left pairing related) (action₁ heap₁) (action₂ heap₂)

/-- If the action gives something, then the heap has new arrays at most, and the result is as it
should be. -/
def Gains (holds : α → Heap → Prop) (action : HeapAction α) (heap : Heap) : Prop :=
  ∀ result after, action heap = .value (result, after) → heap.Gains after ∧ holds result after

namespace Alike

variable {related : α → β → Prop} {others : γ → δ → Prop}

theorem pure {result₁ : α} {result₂ : β} (results : related result₁ result₂) :
    Alike pairing related (Pure.pure result₁) (Pure.pure result₂) := by
  intro heap₁ heap₂ alike
  exact .value ⟨results, alike⟩

theorem fail : Alike pairing related HeapAction.fail HeapAction.fail := by
  intro heap₁ heap₂ alike
  exact .failed

theorem compute {action₁ : Heap → Option (Except RuntimeCause (α × Heap))}
    {action₂ : Heap → Option (Except RuntimeCause (β × Heap))}
    (agree : ∀ heap₁ heap₂, heap₁.Alike pairing heap₂ →
      Option.Rel (Agree pairing (Left pairing related)) (action₁ heap₁) (action₂ heap₂)) :
    Alike pairing related (HeapAction.compute action₁) (HeapAction.compute action₂) := by
  intro heap₁ heap₂ alike
  have answers := agree heap₁ heap₂ alike
  unfold HeapAction.compute
  generalize action₁ heap₁ = answer₁ at answers
  generalize action₂ heap₂ = answer₂ at answers
  cases answers with
  | none => exact .endless
  | some answers =>
      cases answers with
      | ok results => exact .value results
      | error causes => exact .failed

theorem attempt {action₁ : Heap → Except RuntimeCause (α × Heap)}
    {action₂ : Heap → Except RuntimeCause (β × Heap)}
    (agree : ∀ heap₁ heap₂, heap₁.Alike pairing heap₂ →
      Agree pairing (Left pairing related) (action₁ heap₁) (action₂ heap₂)) :
    Alike pairing related (HeapAction.attempt action₁) (HeapAction.attempt action₂) :=
  compute fun heap₁ heap₂ alike => .some (agree heap₁ heap₂ alike)

theorem look {read₁ : Heap → Except RuntimeCause α} {read₂ : Heap → Except RuntimeCause β}
    (agree : ∀ heap₁ heap₂, heap₁.Alike pairing heap₂ →
      Agree pairing related (read₁ heap₁) (read₂ heap₂)) :
    Alike pairing related (HeapAction.look read₁) (HeapAction.look read₂) := by
  refine .attempt fun heap₁ heap₂ alike => ?_
  exact (agree heap₁ heap₂ alike).map fun _ _ results => ⟨results, alike⟩

theorem bind {action₁ : HeapAction α} {action₂ : HeapAction β} {following₁ : α → HeapAction γ}
    {following₂ : β → HeapAction δ} (first : Alike pairing related action₁ action₂)
    (rest : ∀ result₁ result₂, related result₁ result₂ →
      Alike pairing others (following₁ result₁) (following₂ result₂)) :
    Alike pairing others (action₁ >>= following₁) (action₂ >>= following₂) := by
  intro heap₁ heap₂ alike
  have answers := first heap₁ heap₂ alike
  simp only [Bind.bind, StateT.bind]
  generalize action₁ heap₁ = answer₁ at answers
  generalize action₂ heap₂ = answer₂ at answers
  cases answers with
  | failed => exact .failed
  | endless => exact .endless
  | @value left₁ left₂ left =>
      exact rest left₁.1 left₂.1 left.1 left₁.2 left₂.2 left.2

theorem branch {condition₁ condition₂ : Heap → Bool} {yes₁ no₁ : HeapAction α}
    {yes₂ no₂ : HeapAction β}
    (same : ∀ heap₁ heap₂, heap₁.Alike pairing heap₂ → condition₁ heap₁ = condition₂ heap₂)
    (yes : Alike pairing related yes₁ yes₂) (no : Alike pairing related no₁ no₂) :
    Alike pairing related (get >>= fun heap => if condition₁ heap then yes₁ else no₁)
      (get >>= fun heap => if condition₂ heap then yes₂ else no₂) := by
  intro heap₁ heap₂ alike
  show Outcome.Rel _ ((if condition₁ heap₁ then yes₁ else no₁) heap₁)
    ((if condition₂ heap₂ then yes₂ else no₂) heap₂)
  rw [same heap₁ heap₂ alike]
  cases condition₂ heap₂ with
  | true => exact yes heap₁ heap₂ alike
  | false => exact no heap₁ heap₂ alike

theorem lookupMember {object₁ object₂ : Value} (object : object₁.Alike pairing object₂)
    (name : String) : Alike pairing (Value.Alike pairing) (HeapAction.lookupMember object₁ name)
      (HeapAction.lookupMember object₂ name) := by
  have records := object.recordRef?
  unfold HeapAction.lookupMember
  generalize object₁.recordRef? = record₁ at records
  generalize object₂.recordRef? = record₂ at records
  cases records with
  | none => exact .fail
  | some paired =>
      refine .attempt fun heap₁ heap₂ alike => ?_
      have found := alike.lookup paired name
      generalize heap₁.lookup _ name = found₁ at found
      generalize heap₂.lookup _ name = found₂ at found
      cases found with
      | none => exact .error (.undefinedMember name)
      | some value => exact .ok ⟨value, alike⟩

theorem makeArray {values₁ values₂ : List Value}
    (values : List.Forall₂ (Value.Alike pairing) values₁ values₂) :
    Alike pairing (Value.Alike pairing) (HeapAction.makeArray values₁)
      (HeapAction.makeArray values₂) := by
  refine .attempt fun heap₁ heap₂ alike => ?_
  obtain ⟨copies, grown⟩ := Evaluation.alike_duplicateAll alike values
  obtain ⟨made, last⟩ := grown.newList copies
  exact .ok ⟨.array made, last⟩

end Alike

namespace Gains

variable {holds : α → Heap → Prop} {last : β → Heap → Prop}

theorem pure {result : α} (closed : heap.Closed) (held : holds result heap) :
    Gains holds (Pure.pure result) heap := by
  intro given after same
  cases same
  exact ⟨.refl closed, held⟩

theorem fail : Gains holds HeapAction.fail heap := by
  intro given after same
  cases same

theorem compute {action : Heap → Option (Except RuntimeCause (α × Heap))}
    (gains : ∀ result after, action heap = some (.ok (result, after)) →
      heap.Gains after ∧ holds result after) :
    Gains holds (HeapAction.compute action) heap := by
  intro result after given
  unfold HeapAction.compute at given
  refine gains result after ?_
  generalize action heap = answer at given ⊢
  cases answer with
  | none => cases given
  | some answer =>
      cases answer with
      | ok answer =>
          cases given
          rfl
      | error cause => cases given

theorem attempt {action : Heap → Except RuntimeCause (α × Heap)}
    (gains : ∀ result after, action heap = .ok (result, after) →
      heap.Gains after ∧ holds result after) :
    Gains holds (HeapAction.attempt action) heap :=
  compute fun result after given => gains result after (Option.some.inj given)

theorem look {read : Heap → Except RuntimeCause α} (closed : heap.Closed)
    (held : ∀ result, read heap = .ok result → holds result heap) :
    Gains holds (HeapAction.look read) heap := by
  refine .attempt fun result after given => ?_
  generalize found : read heap = answer at given
  cases answer with
  | ok answer =>
      cases given
      exact ⟨.refl closed, held _ found⟩
  | error cause => cases given

theorem bind {action : HeapAction α} {following : α → HeapAction β}
    (first : Gains holds action heap)
    (rest : ∀ result after, heap.Gains after → holds result after →
      Gains last (following result) after) : Gains last (action >>= following) heap := by
  intro result after given
  simp only [Bind.bind, StateT.bind] at given
  generalize found : action heap = answer at given
  cases answer with
  | failed | endless => cases given
  | value answer =>
      obtain ⟨middle, grown⟩ := answer
      obtain ⟨early, held⟩ := first middle grown found
      obtain ⟨late, ended⟩ := rest middle grown early held result after given
      exact ⟨early.trans late, ended⟩

theorem branch {condition : Heap → Bool} {yes no : HeapAction α} (one : Gains holds yes heap)
    (other : Gains holds no heap) :
    Gains holds (get >>= fun heap => if condition heap then yes else no) heap := by
  intro result after given
  replace given : (if condition heap then yes else no) heap = .value (result, after) := given
  cases decided : condition heap with
  | true =>
      rw [decided] at given
      exact one result after given
  | false =>
      rw [decided] at given
      exact other result after given

theorem lookupMember (closed : heap.Closed) (object : Value) (name : String) :
    Gains (fun value after => value.Present after) (HeapAction.lookupMember object name) heap := by
  unfold HeapAction.lookupMember
  cases object.recordRef? with
  | none => exact .fail
  | some record =>
      refine .attempt fun result after given => ?_
      split at given
      · next value found =>
          cases given
          exact ⟨.refl closed, closed.lookup found⟩
      · cases given

theorem makeArray (closed : heap.Closed) {values : List Value}
    (present : ∀ value ∈ values, value.Present heap) :
    Gains (fun value after => value.Present after) (HeapAction.makeArray values) heap := by
  refine .attempt fun result after given => ?_
  cases given
  obtain ⟨copied, copies⟩ := Evaluation.present_duplicateAll closed present
  obtain ⟨made, there⟩ := copied.closed.newArray fun item member =>
    copies item (List.mem_toArray.mp member)
  refine ⟨⟨⟨?_, ?_⟩, made.closed⟩, there⟩
  · exact (Evaluation.duplicateAll_keepsObjects heap values).trans (Heap.keepsObjects_newArray _ _)
  · exact (Evaluation.appends_duplicateAll heap values).trans (Heap.appends_newArray _ _)

theorem applyBinary (closed : heap.Closed) (operator : BinaryOperator) (left right : Value) :
    Gains (fun value after => value.Present after)
      (HeapAction.compute fun heap => heap.applyBinary operator left right) heap := by
  refine .compute fun result after given => ?_
  obtain ⟨grown, present⟩ := closed.applyBinary given
  exact ⟨⟨⟨Heap.keepsObjects_applyBinary given, Heap.appends_applyBinary given⟩, grown.closed⟩,
    present⟩

end Gains

end HeapAction

/-!
## Terms
-/

namespace Term

open HeapAction (Alike Gains)

variable {chain : ScopeChain} {pairing : Pairing}

mutual

/-- A term is evaluated alike in heaps that are alike. -/
theorem alike_evaluate (records : ∀ record, pairing.records record record) (term : Term)
    (free : term.CallFree) :
    Alike pairing (Value.Alike pairing) (term.evaluate chain) (term.evaluate chain) := by
  cases term with
  | constant value => exact .pure free.alike
  | name identifier =>
      refine .attempt fun heap₁ heap₂ alike => ?_
      have chains : List.Forall₂ pairing.records chain.toList chain.toList :=
        List.forall₂_same.mpr fun record _ => records record
      have found := alike.lookupChain chains identifier
      generalize heap₁.lookupChain _ identifier = found₁ at found
      generalize heap₂.lookupChain _ identifier = found₂ at found
      cases found with
      | none => exact .error (.invalidAccess identifier)
      | some value => exact .ok ⟨value, alike⟩
  | unary operator operand =>
      refine .bind (alike_evaluate records operand free) fun inner₁ inner₂ inner => ?_
      exact .look fun heap₁ heap₂ alike => alike.applyUnary operator inner
  | middle operator left right =>
      obtain ⟨leftFree, rightFree⟩ := free
      cases operator with
      | binary operator =>
          refine .bind (alike_evaluate records left leftFree) fun first₁ first₂ first => ?_
          refine .bind (alike_evaluate records right rightFree) fun second₁ second₂ second => ?_
          exact .compute fun heap₁ heap₂ alike => alike.applyBinary operator first second
      | logical operator =>
          refine .bind (alike_evaluate records left leftFree) fun first₁ first₂ first => ?_
          refine .branch (fun heap₁ heap₂ alike => ?_) (.pure first)
            (alike_evaluate records right rightFree)
          simp only [LogicalOperator.decides, alike.isTruthy first]
  | member object identifier =>
      refine .bind (alike_evaluate records object free) fun holder₁ holder₂ holder => ?_
      exact .lookupMember holder identifier
  | element object index =>
      obtain ⟨objectFree, indexFree⟩ := free
      refine .bind (alike_evaluate records object objectFree) fun holder₁ holder₂ holder => ?_
      refine .bind (alike_evaluate records index indexFree) fun position₁ position₂ position => ?_
      exact .look fun heap₁ heap₂ alike => alike.element holder position
  | array elements =>
      refine .bind (alike_evaluateAll records elements free) fun items₁ items₂ items => ?_
      exact .makeArray items
  | call callee arguments => exact free.elim

theorem alike_evaluateAll (records : ∀ record, pairing.records record record)
    (terms : List Term) (free : AllCallFree terms) :
    Alike pairing (List.Forall₂ (Value.Alike pairing)) (evaluateAll chain terms)
      (evaluateAll chain terms) := by
  cases terms with
  | nil => exact .pure .nil
  | cons term terms =>
      refine .bind (alike_evaluate records term free.1) fun first₁ first₂ first => ?_
      refine .bind (alike_evaluateAll records terms free.2) fun rest₁ rest₂ rest => ?_
      exact .pure (.cons first rest)

end

mutual

/-- Evaluating a term makes arrays at most, and its value is there. -/
theorem gains_evaluate (term : Term) (free : term.CallFree) {heap : Heap} (closed : heap.Closed) :
    Gains (fun value after => value.Present after) (term.evaluate chain) heap := by
  cases term with
  | constant value => exact .pure closed free.present
  | name identifier =>
      refine .attempt fun result after given => ?_
      split at given
      · next value found =>
          cases given
          obtain ⟨record, _, inside⟩ := List.exists_of_findSome?_eq_some found
          exact ⟨.refl closed, closed.lookup inside⟩
      · cases given
  | unary operator operand =>
      refine .bind (gains_evaluate operand free closed) fun inner after gains _ => ?_
      exact .look gains.closed fun result given => (Heap.plain_applyUnary given).present
  | middle operator left right =>
      obtain ⟨leftFree, rightFree⟩ := free
      cases operator with
      | binary operator =>
          refine .bind (gains_evaluate left leftFree closed) fun first after gains _ => ?_
          refine .bind (gains_evaluate right rightFree gains.closed) fun second last more _ => ?_
          exact .applyBinary more.closed operator first second
      | logical operator =>
          refine .bind (gains_evaluate left leftFree closed) fun first after gains present => ?_
          exact .branch (.pure gains.closed present) (gains_evaluate right rightFree gains.closed)
  | member object identifier =>
      refine .bind (gains_evaluate object free closed) fun holder after gains _ => ?_
      exact .lookupMember gains.closed holder identifier
  | element object index =>
      obtain ⟨objectFree, indexFree⟩ := free
      refine .bind (gains_evaluate object objectFree closed) fun holder after gains _ => ?_
      refine .bind (gains_evaluate index indexFree gains.closed) fun position last more _ => ?_
      exact .look more.closed fun result given => more.closed.element given
  | array elements =>
      refine .bind (gains_evaluateAll elements free closed) fun items after gains present => ?_
      exact .makeArray gains.closed present
  | call callee arguments => exact free.elim

theorem gains_evaluateAll (terms : List Term) (free : AllCallFree terms) {heap : Heap}
    (closed : heap.Closed) :
    Gains (fun values after => ∀ value ∈ values, value.Present after) (evaluateAll chain terms)
      heap := by
  cases terms with
  | nil => exact .pure closed (List.forall_mem_nil _)
  | cons term terms =>
      refine .bind (gains_evaluate term free.1 closed) fun first after gains present => ?_
      refine .bind (gains_evaluateAll terms free.2 gains.closed) fun rest last more others => ?_
      exact .pure more.closed (List.forall_mem_cons.mpr ⟨present.mono more.size, others⟩)

end

end Term

end ScriptEngine
