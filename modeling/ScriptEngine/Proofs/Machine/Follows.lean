import ScriptEngine.Proofs.Recursive.Expression

/-!
# Following an effect

What it means that something that runs in small turns does what an effect says:
it comes to where the value arrives, it fails in the same way, or it runs for as
long as anybody waits. Doing one effect after another is followed by following
one after the other (`Machine.Follows.bind`).
-/

set_option autoImplicit false

namespace ScriptEngine

/-- Something that runs in turns, seen from outside. -/
structure Machine where
  Configuration : Type
  /-- Running from the first configuration goes through the second. -/
  Reaches : Configuration → Configuration → Prop
  /-- Running from the configuration takes longer than anybody waits. -/
  Lasts : Configuration → Prop
  /-- Running from the configuration fails, and what is left is the session. -/
  Fails : RuntimeError → Session → Configuration → Prop
  refl (configuration : Configuration) : Reaches configuration configuration
  trans {first second third : Configuration} :
    Reaches first second → Reaches second third → Reaches first third
  lasts {first second : Configuration} : Reaches first second → Lasts second → Lasts first
  fails {first second : Configuration} {failure : RuntimeError} {session : Session} :
    Reaches first second → Fails failure session second → Fails failure session first

namespace Machine

variable {machine : Machine} {α β : Type}

/-- From a configuration the machine does what an effect says. Where it arrives
with a value is described for the value and the session. -/
def Follows (machine : Machine) (start : machine.Configuration)
    (arrives : α → Session → machine.Configuration → Prop) : Answer α × Session → Prop
  | (.value value, session) => ∃ stop, machine.Reaches start stop ∧ arrives value session stop
  | (.failed failure, session) => machine.Fails failure session start
  | (.unfinished, _) => machine.Lasts start

namespace Follows

variable {start middle : machine.Configuration}
  {arrives : α → Session → machine.Configuration → Prop}
  {arrivesLater : β → Session → machine.Configuration → Prop}

theorem pure {value : α} {session : Session} (arrived : arrives value session start) :
    machine.Follows start arrives ((Pure.pure value : Effect α) session) :=
  ⟨start, machine.refl start, arrived⟩

theorem after (early : machine.Reaches start middle) {answer : Answer α × Session}
    (follows : machine.Follows middle arrives answer) : machine.Follows start arrives answer := by
  obtain ⟨answer, session⟩ := answer
  cases answer with
  | value value =>
      obtain ⟨stop, late, arrived⟩ := follows
      exact ⟨stop, machine.trans early late, arrived⟩
  | failed failure => exact machine.fails early follows
  | unfinished => exact machine.lasts early follows

theorem bind {effect : Effect α} {following : α → Effect β} {session : Session}
    (first : machine.Follows start arrives (effect session))
    (rest : ∀ value after stop, arrives value after stop →
      machine.Follows stop arrivesLater (following value after)) :
    machine.Follows start arrivesLater ((effect >>= following) session) := by
  simp only [Bind.bind, Effect.bind]
  generalize effect session = answer at first
  obtain ⟨answer, after⟩ := answer
  cases answer with
  | value value =>
      obtain ⟨stop, reached, arrived⟩ := first
      exact (rest value after stop arrived).after reached
  | failed failure => exact first
  | unfinished => exact first

theorem mono {answer : Answer α × Session} {arrivesToo : α → Session → machine.Configuration → Prop}
    (follows : machine.Follows start arrives answer)
    (weaken : ∀ value after stop, arrives value after stop → arrivesToo value after stop) :
    machine.Follows start arrivesToo answer := by
  obtain ⟨answer, session⟩ := answer
  cases answer with
  | value value =>
      obtain ⟨stop, reached, arrived⟩ := follows
      exact ⟨stop, reached, weaken _ _ _ arrived⟩
  | failed failure => exact follows
  | unfinished => exact follows

end Follows

/-- How a machine takes the evaluations of a scope through their turns: `place` puts
an evaluation and the session into a configuration, and `Sound` is what calls need
to know about the session. -/
structure Evaluates (machine : Machine) (call : CallRequest → Effect Value)
    (Sound : Session → Prop) (place : Evaluation → Session → machine.Configuration)
    (script : Script) (chain : ScopeChain) : Prop where
  working {pending : List PendingNode} {results : List ScopedResult} {names : Option RecordRef}
    {current : Option ExpressionRef} {after : Evaluation} {session : Session} {heap : Heap}
    (sound : Sound session)
    (turn : Evaluation.advance ⟨script, chain, pending, results, names, current⟩ session.heap =
      (.working, after, heap)) :
    Sound { session with heap } ∧
      machine.Reaches (place ⟨script, chain, pending, results, names, current⟩ session)
        (place after { session with heap })
  failed {pending : List PendingNode} {results : List ScopedResult} {names : Option RecordRef}
    {current : Option ExpressionRef} {after : Evaluation} {session : Session} {heap : Heap}
    {failure : RuntimeError} (sound : Sound session)
    (turn : Evaluation.advance ⟨script, chain, pending, results, names, current⟩ session.heap =
      (.failed failure, after, heap)) :
    machine.Fails failure { session with heap }
      (place ⟨script, chain, pending, results, names, current⟩ session)
  endless {pending : List PendingNode} {results : List ScopedResult} {names : Option RecordRef}
    {current : Option ExpressionRef} {after : Evaluation} {session : Session} {heap : Heap}
    (sound : Sound session)
    (turn : Evaluation.advance ⟨script, chain, pending, results, names, current⟩ session.heap =
      (.endless, after, heap)) :
    machine.Lasts (place ⟨script, chain, pending, results, names, current⟩ session)
  called {pending : List PendingNode} {results : List ScopedResult} {names : Option RecordRef}
    {current : Option ExpressionRef} {after : Evaluation} {session : Session} {heap : Heap}
    {request : CallRequest} {scope : Option Value} (sound : Sound session)
    (turn : Evaluation.advance ⟨script, chain, pending, results, names, current⟩ session.heap =
      (.call request scope, after, heap)) :
    machine.Follows (place ⟨script, chain, pending, results, names, current⟩ session)
      (fun value session stop =>
        Sound session ∧ stop = place (after.pushResult value scope) session)
      ((call request).locatedAt request.span { session with heap })

end Machine

end ScriptEngine
