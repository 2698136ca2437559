import Mathlib.Data.List.Basic
import ScriptEngine.Session.Basic

/-!
# Contexts at rest and contexts in the middle of a statement

The stack of a session lists two kinds of contexts in the order in which they were entered:
those between two statements, and those in the middle of one. An interpreter that takes a
context off its stack while a statement runs has a list for each kind: the contexts at rest,
and what the others see. Here both lists are read off the one stack, with what an observer
gets from them: their number, and the names that are visible.
-/

set_option autoImplicit false

namespace ScriptEngine

/-- The contexts between two statements, the innermost first. -/
def restingIn (stack : List Activation) : List Context :=
  (stack.filter Activation.rests).map Activation.context

/-- What the contexts see that are in the middle of a statement, the innermost first. -/
def executingIn (stack : List Activation) : List (List RecordRef) :=
  (stack.filter fun activation => !activation.rests).map fun activation =>
    activation.context.visible

section

variable {top : Activation} {stack : List Activation}

theorem Activation.rests_eq_true (resting : top.activity = .resting) : top.rests = true := by
  rw [Activation.rests, resting]

theorem Activation.rests_eq_false (waits : top.awaits = true) : top.rests = false := by
  obtain ⟨context, activity⟩ := top
  cases activity with
  | resting | evaluating => cases waits
  | calling | declaring => rfl

theorem Activation.awaits_eq_false (rests : top.rests = true) : top.awaits = false := by
  obtain ⟨context, activity⟩ := top
  cases activity with
  | resting => rfl
  | evaluating | calling | declaring => cases rests

theorem restingIn_rests (rests : top.rests = true) :
    restingIn (top :: stack) = top.context :: restingIn stack := by
  simp [restingIn, rests]

theorem restingIn_executes (executes : top.rests = false) :
    restingIn (top :: stack) = restingIn stack := by
  simp [restingIn, executes]

theorem executingIn_rests (rests : top.rests = true) :
    executingIn (top :: stack) = executingIn stack := by
  simp [executingIn, rests]

theorem executingIn_executes (executes : top.rests = false) :
    executingIn (top :: stack) = top.context.visible :: executingIn stack := by
  simp [executingIn, executes]

theorem restingIn_append (upper lower : List Activation) :
    restingIn (upper ++ lower) = restingIn upper ++ restingIn lower := by
  simp [restingIn]

theorem executingIn_append (upper lower : List Activation) :
    executingIn (upper ++ lower) = executingIn upper ++ executingIn lower := by
  simp [executingIn]

theorem restingIn_of_rests (rests : ∀ activation ∈ stack, activation.rests = true) :
    restingIn stack = stack.map Activation.context := by
  rw [restingIn, List.filter_eq_self.mpr rests]

theorem executingIn_of_rests (rests : ∀ activation ∈ stack, activation.rests = true) :
    executingIn stack = [] := by
  have none_left : stack.filter (fun activation => !activation.rests) = [] :=
    List.filter_eq_nil_iff.mpr fun activation member => by simp [rests activation member]
  rw [executingIn, none_left, List.map_nil]

theorem restingIn_of_executes (executes : ∀ activation ∈ stack, activation.rests = false) :
    restingIn stack = [] := by
  have none_left : stack.filter Activation.rests = [] :=
    List.filter_eq_nil_iff.mpr fun activation member => by simp [executes activation member]
  rw [restingIn, none_left, List.map_nil]

theorem executingIn_of_executes (executes : ∀ activation ∈ stack, activation.rests = false) :
    executingIn stack = stack.map fun activation => activation.context.visible := by
  rw [executingIn, List.filter_eq_self.mpr fun activation member => by
    simp [executes activation member]]

end

namespace Session

/-- The contexts of the session between two statements, the innermost first. -/
def resting (session : Session) : List Context :=
  restingIn session.stack

/-- What the contexts of the session see that are in the middle of a statement. -/
def executing (session : Session) : List (List RecordRef) :=
  executingIn session.stack

theorem depth_eq (session : Session) :
    session.depth = session.resting.length + session.executing.length := by
  unfold depth resting executing restingIn executingIn
  rw [List.length_map, List.length_map]
  exact List.length_eq_length_filter_add Activation.rests

/-- The visible names are those of the innermost context in the middle of a statement, and
without one those of the innermost context at rest. The two kinds only have to be told apart
where a context rests above the one whose statement has opened it: there nobody looks. -/
theorem namespaces_eq {session : Session}
    (current : ∀ top ∈ session.stack.head?, top.rests = true → session.executing = []) :
    session.namespaces = session.executing.head?.getD
      (session.resting.head?.elim [session.globals] Context.visible) := by
  cases stack : session.stack with
  | nil => simp [namespaces, context?, executing, resting, stack, executingIn, restingIn]
  | cons top below =>
      have sees : session.namespaces = top.context.visible := by simp [namespaces, context?, stack]
      rw [sees]
      cases rests : top.rests with
      | true =>
          have idle : session.executing = [] := current top (by rw [stack]; rfl) rests
          have first : session.resting = top.context :: restingIn below := by
            rw [resting, stack, restingIn_rests rests]
          rw [idle, first]
          rfl
      | false =>
          have first : session.executing = top.context.visible :: executingIn below := by
            rw [executing, stack, executingIn_executes rests]
          rw [first]
          rfl

end Session

end ScriptEngine
