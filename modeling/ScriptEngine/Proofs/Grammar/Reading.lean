import ScriptEngine.Grammar.Statement
import ScriptEngine.Proofs.Script.Growth

/-!
# Reading tokens

What the productions that take single tokens do when there is nothing but tokens left
to read. The last token is never taken, so each of them asks for another one behind
the token that it takes.
-/

set_option autoImplicit false

namespace ScriptEngine

/-- A parser with nothing but tokens left. -/
def Cursor.reading (tokens : List Token) (script : Script) : Cursor :=
  ⟨tokens.map .ok, script⟩

namespace Parse

variable {α β : Type}

theorem bind_of_ok {first : Parse α} {following : α → Parse β} {cursor middle : Cursor}
    {value : α} (done : first cursor = .ok (value, middle)) :
    (first >>= following) cursor = following value middle := by
  simp only [bind, StateT.bind, Except.bind, done]

theorem next_reading (token : Token) {rest : List Token} (more : rest ≠ [])
    (script : Script) :
    next (.reading (token :: rest) script) = .ok (token, .reading rest script) := by
  cases rest with
  | nil => cases more rfl
  | cons => rfl

theorem peek_reading (token : Token) (rest : List Token) (script : Script) :
    peek (.reading (token :: rest) script) = .ok (token, .reading (token :: rest) script) := rfl

theorem skip_reading (token : Token) {rest : List Token} (more : rest ≠ [])
    (script : Script) :
    skip (.reading (token :: rest) script) = .ok ((), .reading rest script) := by
  cases rest with
  | nil => cases more rfl
  | cons => rfl

theorem expect_reading {kind : TokenKind} {token : Token} (same : token.kind = kind)
    {rest : List Token} (more : rest ≠ []) (script : Script) :
    expect kind (.reading (token :: rest) script) = .ok (token, .reading rest script) := by
  unfold expect
  rw [bind_of_ok (next_reading token more script), if_pos same]
  rfl

/-- The last token stays when it is taken. -/
theorem expect_reading_last {kind : TokenKind} {token : Token} (same : token.kind = kind)
    (script : Script) :
    expect kind (.reading [token] script) = .ok (token, .reading [token] script) := by
  have taken : next (.reading [token] script) = .ok (token, .reading [token] script) := rfl
  unfold expect
  rw [bind_of_ok taken, if_pos same]
  rfl

theorem pushExpression_reading {node : Expression} {reference : ExpressionRef}
    {script grown : Script} (pushed : script.pushExpression node = (reference, grown))
    (tokens : List Token) :
    pushExpression node (.reading tokens script) = .ok (reference, .reading tokens grown) := by
  cases pushed
  rfl

theorem name_reading {token : Token} (same : token.kind = .identifier)
    {rest : List Token} (more : rest ≠ []) (script : Script) :
    name (.reading (token :: rest) script) =
      .ok ((token.lexeme, token.span), .reading rest script) := by
  unfold name
  rw [bind_of_ok (expect_reading same more script)]
  rfl

theorem accept?_reading {kind : TokenKind} {token : Token} (same : token.kind = kind)
    {rest : List Token} (more : rest ≠ []) (script : Script) :
    accept? kind (.reading (token :: rest) script) = .ok (some token, .reading rest script) := by
  unfold accept?
  rw [bind_of_ok (peek_reading ..), if_pos same, bind_of_ok (skip_reading token more script)]
  rfl

theorem accept?_reading_other {kind : TokenKind} {token : Token}
    (other : token.kind ≠ kind) (rest : List Token) (script : Script) :
    accept? kind (.reading (token :: rest) script) =
      .ok (none, .reading (token :: rest) script) := by
  unfold accept?
  rw [bind_of_ok (peek_reading ..), if_neg other]
  rfl

private theorem accept_of_accept? {kind : TokenKind} {cursor middle : Cursor}
    {answer : Option Token} (accepted : accept? kind cursor = .ok (answer, middle)) :
    accept kind cursor = .ok (answer.isSome, middle) := by
  simp only [accept, Functor.map, StateT.map, bind, Except.bind, accepted]
  rfl

theorem accept_reading {kind : TokenKind} {token : Token} (same : token.kind = kind)
    {rest : List Token} (more : rest ≠ []) (taken missing : Parse α) (script : Script) :
    (accept kind >>= fun accepted => if accepted then taken else missing)
        (.reading (token :: rest) script) = taken (.reading rest script) := by
  rw [bind_of_ok (accept_of_accept? (accept?_reading same more script))]
  rfl

theorem accept_reading_other {kind : TokenKind} {token : Token} (other : token.kind ≠ kind)
    (taken missing : Parse α) (rest : List Token) (script : Script) :
    (accept kind >>= fun accepted => if accepted then taken else missing)
        (.reading (token :: rest) script) = missing (.reading (token :: rest) script) := by
  rw [bind_of_ok (accept_of_accept? (accept?_reading_other other rest script))]
  rfl

private theorem dropKinds_map {kinds : List TokenKind} {skipped : List Token}
    (dropped : ∀ token ∈ skipped, token.kind ∈ kinds) {following : Token}
    (stays : following.kind ∉ kinds) (rest : List Token) :
    dropKinds kinds ((skipped ++ following :: rest).map .ok) = (following :: rest).map .ok := by
  induction skipped with
  | nil =>
      cases rest with
      | nil => rfl
      | cons => simp [dropKinds, stays]
  | cons token skipped ih =>
      have taken := dropped token List.mem_cons_self
      have others := ih fun other member => dropped other (List.mem_cons_of_mem _ member)
      cases skipped with
      | nil => simpa [dropKinds, taken] using others
      | cons => simpa [dropKinds, taken] using others

theorem skipKinds_reading {kinds : List TokenKind} {skipped : List Token}
    (dropped : ∀ token ∈ skipped, token.kind ∈ kinds) {following : Token}
    (stays : following.kind ∉ kinds) (rest : List Token) (script : Script) :
    skipKinds kinds (.reading (skipped ++ following :: rest) script) =
      .ok ((), .reading (following :: rest) script) := by
  have same := dropKinds_map dropped stays rest
  simp only [Cursor.reading, ← same]
  rfl

theorem skipKinds_reading_other {kinds : List TokenKind} {following : Token}
    (stays : following.kind ∉ kinds) (rest : List Token) (script : Script) :
    skipKinds kinds (.reading (following :: rest) script) =
      .ok ((), .reading (following :: rest) script) :=
  skipKinds_reading (List.forall_mem_nil _) stays rest script

/-!
## What ends a statement
-/

/-- The kinds of tokens that a statement can end with. -/
def terminators : List TokenKind := [.newline, .semicolon, .endOfSource]

/-- What is left behind the token that ends a statement. The end of the source stays. -/
inductive Ends : List Token → List Token → Prop where
  | separator {token : Token} {rest : List Token} :
      token.kind = .newline ∨ token.kind = .semicolon → rest ≠ [] → Ends (token :: rest) rest
  | source {token : Token} (rest : List Token) :
      token.kind = .endOfSource → Ends (token :: rest) (token :: rest)

theorem Ends.opens {tokens after : List Token} (ends : Ends tokens after) :
    ∃ following rest, tokens = following :: rest ∧ following.kind ∈ terminators := by
  cases ends with
  | separator separates =>
      refine ⟨_, _, rfl, ?_⟩
      rcases separates with same | same <;> simp [terminators, same]
  | source _ ended => exact ⟨_, _, rfl, by simp [terminators, ended]⟩

theorem terminator_reading {tokens after : List Token} (ends : Ends tokens after)
    (script : Script) :
    terminator (.reading tokens script) = .ok ((), .reading after script) := by
  unfold terminator
  cases ends with
  | separator separates more =>
      rw [bind_of_ok (peek_reading ..)]
      rcases separates with same | same
      · rw [same]
        exact skip_reading _ more script
      · rw [same]
        exact skip_reading _ more script
  | source _ ended =>
      rw [bind_of_ok (peek_reading ..), ended]
      rfl

theorem atTerminator_reading {token : Token} (rest : List Token) (script : Script) :
    atTerminator (.reading (token :: rest) script) =
      .ok (decide (token.kind ∈ terminators), .reading (token :: rest) script) := by
  unfold atTerminator
  have same : (token.kind = .newline || token.kind = .semicolon || token.kind = .endOfSource) =
      decide (token.kind ∈ terminators) := by
    simp [terminators, Bool.or_assoc]
  rw [bind_of_ok (peek_reading ..), same]
  rfl

/-!
## Reading with a production
-/

/-- From the script on, the production takes tokens until the ones `after` are left, once
it is allowed more than `cost` calls. It only adds to the script, and what it gives is
laid out in the slots that it adds. -/
def Reads (production : Nat → Parse α) (laid : Script → α → Nat → Nat → Prop) (cost : Nat)
    (tokens after : List Token) (script : Script) : Prop :=
  ∃ result grown, script.Extends grown ∧
    laid grown result script.statements.size grown.statements.size ∧
      ∀ bound, cost < bound →
        production bound (.reading tokens script) = .ok (result, .reading after grown)

variable {laid : Script → α → Nat → Nat → Prop} {cost : Nat} {tokens middle after : List Token}
  {script : Script}

theorem Reads.mono {production : Nat → Parse α} {larger : Nat}
    (reads : Reads production laid cost tokens after script) (le : cost ≤ larger) :
    Reads production laid larger tokens after script := by
  obtain ⟨result, grown, extended, resultLaid, same⟩ := reads
  exact ⟨result, grown, extended, resultLaid,
    fun bound enough => same bound (Nat.lt_of_le_of_lt le enough)⟩

/-- A production that goes on as another one behind some tokens. -/
theorem Reads.of_step {production further : Nat → Parse α}
    (step : ∀ bound, production bound (.reading tokens script) =
      further bound (.reading middle script))
    (reads : Reads further laid cost middle after script) :
    Reads production laid cost tokens after script := by
  obtain ⟨result, grown, extended, resultLaid, same⟩ := reads
  exact ⟨result, grown, extended, resultLaid, fun bound enough => (step bound).trans
    (same bound enough)⟩

/-- A production that spends a call and goes on as another one. -/
theorem Reads.of_call {production further : Nat → Parse α}
    (step : ∀ bound, production (bound + 1) (.reading tokens script) =
      further bound (.reading middle script))
    (reads : Reads further laid cost middle after script) :
    Reads production laid (cost + 1) tokens after script := by
  obtain ⟨result, grown, extended, resultLaid, same⟩ := reads
  refine ⟨result, grown, extended, resultLaid, fun bound enough => ?_⟩
  obtain ⟨bound, rfl⟩ : ∃ fewer, bound = fewer + 1 := ⟨bound - 1, by omega⟩
  exact (step bound).trans (same bound (by omega))

theorem Reads.bind {first : Nat → Parse α} {following : α → Nat → Parse β}
    {whole : Script → β → Nat → Nat → Prop}
    (reads : Reads first laid cost tokens middle script)
    (readsRest : ∀ result grown, script.Extends grown →
      laid grown result script.statements.size grown.statements.size →
        Reads (following result)
          (fun final value _ stop => whole final value script.statements.size stop)
          cost middle after grown) :
    Reads (fun bound => first bound >>= fun result => following result bound) whole cost tokens
      after script := by
  obtain ⟨result, grown, extended, resultLaid, same⟩ := reads
  obtain ⟨value, final, later, valueLaid, sameRest⟩ := readsRest result grown extended resultLaid
  exact ⟨value, final, extended.trans later, valueLaid, fun bound enough =>
    (bind_of_ok (same bound enough)).trans (sameRest bound enough)⟩

theorem reads_pure {value : α} (valueLaid : laid script value script.statements.size
    script.statements.size) :
    Reads (fun _ => pure value) laid cost tokens tokens script :=
  ⟨value, script, .refl script, valueLaid, fun _ _ => rfl⟩

end Parse

end ScriptEngine
