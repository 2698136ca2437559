import ScriptEngine.Proofs.Guarded.Grammar
import ScriptEngine.Proofs.Guarded.Reading

/-!
# Following the parser

A guarded production and the production of the parser that it stands for go through the same
items side by side: `Follows` says that both give the same answer, that no guard is met, and
that the depth of the calls suffices on both sides. What a production may call is settled by
`Ready`: among the calls that go on, those that began with the same tokens taken are of a
higher rank.
-/

set_option autoImplicit false

namespace ScriptEngine

/-!
## Standing at the same place
-/

/-- One call of the parser: the source, whether positions are looked after, the tokens that
have been taken and the items that are left, and how many items may have been drawn when
the call is over. -/
structure Course where
  source : String
  positions : Bool
  short : positions = true → source.utf8ByteSize < 2 ^ 32
  total : Nat
  budget : Nat

/-- A token of the source. -/
def Course.Scanned (course : Course) (token : Token) : Prop :=
  .ok token ∈ LexicalItem.scan course.source

/-- What is read in a source stands there. -/
theorem LexicalItem.within_of_scan {source : String} {item : LexicalItem}
    (member : item ∈ scan source) : item.span.Within source := by
  have size : utf8Length source.toList = source.utf8ByteSize := by
    rw [← utf8ByteSize_ofList, String.ofList_toList]
  exact (scanFrom_tiled 0 0 source.toList).within (by omega) item member

theorem Course.Scanned.within {course : Course} {token : Token} (scanned : course.Scanned token) :
    token.span.Within course.source :=
  LexicalItem.within_of_scan scanned

theorem Guarded.bind_apply {α β : Type} (guarded : Guarded α) (further : α → Guarded β)
    (watch : Watch) (desk : Desk) :
    (guarded >>= further) watch desk =
      guarded watch desk >>= fun answer => further answer.1 watch answer.2 :=
  rfl

theorem Guarded.bind_ok {α β : Type} {guarded : Guarded α} {further : α → Guarded β} {watch : Watch}
    {desk after : Desk} {value : α} (ran : guarded watch desk = .ok (value, after)) :
    (guarded >>= further) watch desk = further value watch after := by
  rw [bind_apply, ran]
  rfl

/-- A token of the source is spelled there as it was read. -/
theorem Course.Scanned.spelled {course : Course} {token : Token} (scanned : course.Scanned token)
    (calls : List (Production × Nat)) (desk : Desk) :
    Guarded.spelled token ⟨course.source, course.positions, calls⟩ desk = .ok (token, desk) := by
  have text : Reader.textOf course.source course.positions token.span token.lexeme =
      .ok token.lexeme := by
    unfold Reader.textOf
    split
    · next looked => rw [Token.text?_span (course.short looked) scanned]
    · rfl
  rw [Guarded.spelled, text]

/-- Spans of the source are merged without exceeding a word. -/
theorem Course.merge (course : Course) {left right : Span} (leftWithin : left.Within course.source)
    (rightWithin : right.Within course.source) (calls : List (Production × Nat)) (desk : Desk) :
    Guarded.merge left right ⟨course.source, course.positions, calls⟩ desk =
      .ok (left.merge right, desk) := by
  unfold Guarded.merge
  split
  · next looked => rw [Span.merge?_of_within (course.short looked) leftWithin rightWithin]
  · rfl

namespace Desk

/-- The desk has the cursor's items in front of it, the first of them perhaps in the slot. -/
structure Level (source : String) (desk : Desk) (cursor : Cursor) : Prop where
  script : desk.script = cursor.script
  scanned : cursor.items <:+ LexicalItem.scan source
  reads : match desk.slot with
    | none => desk.reader.Reads source cursor.items
    | some item => cursor.items.head? = some item ∧
        desk.reader.Reads source (LexicalItem.afterFirst cursor.items)

/-- Inside of a call no token has gone lost, and what may still be drawn suffices. -/
structure Stands (course : Course) (desk : Desk) (cursor : Cursor) : Prop
    extends desk.Level course.source cursor where
  taken : desk.taken + cursor.items.length = course.total
  drawn : desk.drawn + cursor.items.length ≤ course.budget + if desk.slot.isSome then 1 else 0

end Desk

theorem LexicalItem.Closed.of_suffix {items some : List LexicalItem} (closed : Closed items)
    (suffix : some <:+ items) (something : some ≠ []) : Closed some := by
  induction closed with
  | last ends =>
      rcases List.suffix_cons_iff.mp suffix with rfl | suffix
      · exact .last ends
      · exact (something (List.suffix_nil.mp suffix)).elim
  | item inner closed ih =>
      rcases List.suffix_cons_iff.mp suffix with rfl | suffix
      · exact .item inner closed
      · exact ih suffix

theorem LexicalItem.Closed.ne_nil {items : List LexicalItem} (closed : Closed items) :
    items ≠ [] := by
  cases closed <;> simp

theorem Reader.Reads.ne_nil {source : String} {reader : Reader} {items : List LexicalItem}
    (reads : reader.Reads source items) : items ≠ [] := by
  obtain ⟨_, _, _, _, _, _, rfl⟩ := reads
  exact (LexicalItem.closed_scanFrom ..).ne_nil

/-- Inside of the items there is another one behind, which comes next. -/
theorem LexicalItem.Closed.behind {item : LexicalItem} {items : List LexicalItem}
    (closed : Closed items) (head : items.head? = some item)
    (inner : ∀ token, item = .ok token → token.kind ≠ .endOfSource) :
    items = item :: afterFirst items := by
  cases closed with
  | last ends =>
      obtain rfl := Option.some.inj head
      exact (inner _ rfl ends).elim
  | item _ closed =>
      obtain rfl := Option.some.inj head
      cases closed <;> rfl

/-- Behind the end of the source it comes again. -/
theorem LexicalItem.Closed.last_again {token : Token} {items : List LexicalItem}
    (closed : Closed items) (head : items.head? = some (.ok token))
    (ends : token.kind = .endOfSource) : afterFirst items = items := by
  cases closed with
  | last _ => rfl
  | item inner _ => exact (inner token (Option.some.inj head) ends).elim

theorem LexicalItem.afterFirst_suffix (items : List LexicalItem) : afterFirst items <:+ items := by
  unfold afterFirst
  split
  · exact List.suffix_cons ..
  · exact List.suffix_rfl

namespace Parse

variable {cursor : Cursor}

theorem bind_apply {α β : Type} (plain : Parse α) (other : α → Parse β) (cursor : Cursor) :
    (plain >>= other) cursor = plain cursor >>= fun answer => other answer.1 answer.2 :=
  rfl

theorem peek_token {token : Token} (head : cursor.items.head? = some (.ok token)) :
    peek cursor = .ok (token, cursor) := by
  obtain ⟨items, script⟩ := cursor
  obtain ⟨rest, rfl⟩ := List.head?_eq_some_iff.mp head
  rfl

theorem peek_failure {failure : LexicalError}
    (head : cursor.items.head? = some (.error failure)) :
    peek cursor = .error (.refused (.ofLexical failure) cursor) := by
  obtain ⟨items, script⟩ := cursor
  obtain ⟨rest, rfl⟩ := List.head?_eq_some_iff.mp head
  rfl

theorem skip_eq : skip cursor =
    .ok ((), { cursor with items := LexicalItem.afterFirst cursor.items }) := by
  obtain ⟨items, script⟩ := cursor
  rcases items with _ | ⟨item, _ | ⟨following, rest⟩⟩ <;> rfl

theorem next_token {token : Token} (head : cursor.items.head? = some (.ok token)) :
    next cursor = .ok (token, { cursor with items := LexicalItem.afterFirst cursor.items }) := by
  obtain ⟨items, script⟩ := cursor
  obtain ⟨rest, rfl⟩ := List.head?_eq_some_iff.mp head
  cases rest <;> rfl

theorem next_failure {failure : LexicalError} (closed : LexicalItem.Closed cursor.items)
    (head : cursor.items.head? = some (.error failure)) :
    next cursor = .error (.refused (.ofLexical failure)
      { cursor with items := LexicalItem.afterFirst cursor.items }) := by
  obtain ⟨items, script⟩ := cursor
  obtain ⟨rest, rfl⟩ := List.head?_eq_some_iff.mp head
  cases closed with
  | item _ closed => cases closed <;> rfl

end Parse

namespace Desk

variable {course : Course} {source : String} {desk : Desk} {cursor : Cursor}

theorem Level.closed (level : desk.Level source cursor) : LexicalItem.Closed cursor.items := by
  refine (LexicalItem.closed_scanFrom 0 0 0 source.toList).of_suffix level.scanned ?_
  have reads := level.reads
  split at reads
  · exact reads.ne_nil
  · rintro nothing
    rw [nothing] at reads
    cases reads.1

theorem Stands.drawn_le (stands : desk.Stands course cursor) : desk.drawn ≤ course.budget := by
  have drawn := stands.drawn
  have some := List.length_pos_of_ne_nil stands.closed.ne_nil
  split at drawn <;> omega

/-- The next item is drawn, if none lies in the slot. -/
theorem Level.draw (level : desk.Level course.source cursor) (empty : desk.slot = none)
    (calls : List (Production × Nat)) :
    ∃ item reader, Guarded.draw ⟨course.source, course.positions, calls⟩ desk =
        .ok (item, { desk with reader, drawn := desk.drawn + 1 }) ∧
      cursor.items.head? = some item ∧
      reader.Reads course.source (LexicalItem.afterFirst cursor.items) := by
  have reads := level.reads
  rw [empty] at reads
  obtain ⟨item, reader, ran, head, left⟩ := reads.next course.short
  refine ⟨item, reader, ?_, head, left⟩
  rw [Guarded.draw, ran]

/-- To look at the first item is to put it into the slot. -/
theorem Stands.peek (stands : desk.Stands course cursor) (calls : List (Production × Nat)) :
    ∃ item after, cursor.items.head? = some item ∧ after.Stands course cursor ∧
      Guarded.peek ⟨course.source, course.positions, calls⟩ desk =
        Guarded.reveal item ⟨course.source, course.positions, calls⟩ after := by
  cases slot : desk.slot with
  | some item =>
      have reads := stands.reads
      rw [slot] at reads
      refine ⟨item, desk, reads.1, stands, ?_⟩
      rw [Guarded.peek, slot]
  | none =>
      obtain ⟨item, reader, ran, head, left⟩ := stands.draw slot calls
      have drawn := stands.drawn
      rw [slot] at drawn
      refine ⟨item, { desk with reader, drawn := desk.drawn + 1, slot := some item }, head,
        ⟨⟨stands.script, stands.scanned, head, left⟩, stands.taken, ?_⟩, ?_⟩
      · simp at drawn ⊢
        omega
      · rw [Guarded.peek, slot]
        dsimp only
        rw [ran]
        rfl

/-- To take the first item is to empty the slot. -/
theorem Stands.next (stands : desk.Stands course cursor) (calls : List (Production × Nat)) :
    ∃ item after, cursor.items.head? = some item ∧
      after.Level course.source
        { cursor with items := LexicalItem.afterFirst cursor.items } ∧
      after.slot = none ∧ after.taken = desk.taken ∧
      after.drawn + cursor.items.length ≤ course.budget + 1 ∧
      Guarded.next ⟨course.source, course.positions, calls⟩ desk =
        Guarded.take item ⟨course.source, course.positions, calls⟩ after := by
  have drawn := stands.drawn
  have suffix := (LexicalItem.afterFirst_suffix cursor.items).trans stands.scanned
  cases slot : desk.slot with
  | some item =>
      have reads := stands.reads
      rw [slot] at reads drawn
      refine ⟨item, { desk with slot := none }, reads.1, ⟨stands.script, suffix, reads.2⟩, rfl, rfl,
        drawn, ?_⟩
      rw [Guarded.next, slot]
  | none =>
      obtain ⟨item, reader, ran, head, left⟩ := stands.draw slot calls
      rw [slot] at drawn
      refine ⟨item, { desk with reader, drawn := desk.drawn + 1 }, head,
        ⟨stands.script, suffix, ?_⟩, slot, rfl, ?_, ?_⟩
      · dsimp only
        rw [slot]
        exact left
      · simp at drawn ⊢
        omega
      · rw [Guarded.next, slot]
        dsimp only
        rw [ran, slot]
        rfl

end Desk

theorem Guarded.take_last {token : Token} (last : token.kind = .endOfSource) (watch : Watch)
    (desk : Desk) : take (.ok token) watch desk = .ok (token, desk) :=
  if_pos last

theorem Guarded.take_inner {token : Token} (inner : token.kind ≠ .endOfSource) (watch : Watch)
    (desk : Desk) :
    take (.ok token) watch desk = .ok (token, { desk with taken := desk.taken + 1 }) :=
  if_neg inner

/-!
## Following
-/

/-- The two answers are the same, and what is left to read is in front of both. An answer leaves
fewer items than given. A refusal is for a place in the source, and has not drawn more than it
may. -/
inductive Matches {α : Type} (course : Course) (given : α → Prop) (limit : Nat) :
    Except GuardedStop (α × Desk) → Except ParseStop (α × Cursor) → Prop where
  | answered {value : α} {desk : Desk} {cursor : Cursor} (stands : desk.Stands course cursor)
      (gives : given value) (fewer : cursor.items.length < limit) :
      Matches course given limit (.ok (value, desk)) (.ok (value, cursor))
  | refused {failure : ParseError} {desk : Desk} {cursor : Cursor}
      (level : desk.Level course.source cursor) (within : failure.span.Within course.source)
      (drawn : desk.drawn ≤ course.budget) :
      Matches course given limit (.error (.refused failure desk)) (.error (.refused failure cursor))

/-- From where so many items are left, the guarded production does what the parser does. If a
token is given, it is the first of the items. -/
def Follows {α : Type} (course : Course) (calls : List (Production × Nat)) (head : Option Token)
    (given : α → Prop) (size limit : Nat) (guarded : Guarded α) (plain : Parse α) : Prop :=
  ∀ desk cursor, desk.Stands course cursor → cursor.items.length = size →
    (∀ token ∈ head, cursor.items.head? = some (.ok token)) →
    Matches course given limit (guarded ⟨course.source, course.positions, calls⟩ desk)
      (plain cursor)

namespace Follows

variable {α β : Type} {course : Course} {calls : List (Production × Nat)} {head : Option Token}
  {given : α → Prop} {gives : β → Prop} {size middle limit : Nat}

theorem bind {guarded : Guarded α} {plain : Parse α} {further : α → Guarded β}
    {other : α → Parse β} (first : Follows course calls head given size middle guarded plain)
    (later : ∀ value, given value → ∀ left < middle,
      Follows course calls none gives left limit (further value) (other value)) :
    Follows course calls head gives size limit (guarded >>= further) (plain >>= other) := by
  intro desk cursor stands length known
  have begun := first desk cursor stands length known
  rw [Guarded.bind_apply, Parse.bind_apply]
  revert begun
  generalize guarded ⟨course.source, course.positions, calls⟩ desk = answer
  generalize plain cursor = plainAnswer
  rintro (⟨stands, holds, fewer⟩ | ⟨level, within, drawn⟩)
  · exact later _ holds _ fewer _ _ stands rfl (by rintro _ ⟨⟩)
  · exact .refused level within drawn

theorem pure {value : α} (holds : given value) (fewer : size < limit) :
    Follows course calls head given size limit (pure value) (pure value) := by
  intro desk cursor stands length _
  exact .answered stands holds (length ▸ fewer)

theorem refuse (cause : ParseCause) {span : Span} (within : span.Within course.source) :
    Follows course calls head given size limit (Guarded.refuse cause span)
      (Parse.refuse cause span) := by
  intro desk cursor stands _ _
  exact .refused stands.toLevel within stands.drawn_le

theorem forget {guarded : Guarded α} {plain : Parse α}
    (follows : Follows course calls none given size limit guarded plain) :
    Follows course calls head given size limit guarded plain :=
  fun desk cursor stands length _ => follows desk cursor stands length (by rintro _ ⟨⟩)

theorem mono {guarded : Guarded α} {plain : Parse α} (more : middle ≤ limit)
    (follows : Follows course calls head given size middle guarded plain) :
    Follows course calls head given size limit guarded plain := by
  intro desk cursor stands length known
  have begun := follows desk cursor stands length known
  revert begun
  generalize guarded ⟨course.source, course.positions, calls⟩ desk = answer
  generalize plain cursor = plainAnswer
  rintro (⟨stands, holds, fewer⟩ | ⟨level, within, drawn⟩)
  · exact .answered stands holds (fewer.trans_le more)
  · exact .refused level within drawn

theorem of_eq {guarded : Guarded α} {plain other : Parse α}
    (same : ∀ cursor : Cursor, LexicalItem.Closed cursor.items → plain cursor = other cursor)
    (follows : Follows course calls head given size limit guarded other) :
    Follows course calls head given size limit guarded plain := by
  intro desk cursor stands length known
  rw [same cursor stands.closed]
  exact follows desk cursor stands length known

/-!
## Tokens
-/

theorem peek_bind {further : Token → Guarded β} {other : Token → Parse β}
    (later : ∀ token, course.Scanned token → (∀ known ∈ head, known = token) →
      Follows course calls (some token) gives size limit (further token) (other token)) :
    Follows course calls head gives size limit (Guarded.peek >>= further)
      (Parse.peek >>= other) := by
  intro desk cursor stands length known
  obtain ⟨item, after, first, standsAfter, ran⟩ := stands.peek calls
  rw [Guarded.bind_apply, Parse.bind_apply, ran]
  cases item with
  | error failure =>
      rw [Parse.peek_failure first]
      exact .refused standsAfter.toLevel
        (LexicalItem.within_of_scan (stands.scanned.subset (List.mem_of_head? first)))
        standsAfter.drawn_le
  | ok token =>
      rw [Parse.peek_token first]
      refine later token (stands.scanned.subset (List.mem_of_head? first)) (fun same member => ?_)
        after cursor standsAfter length ?_
      · have same := known same member
        rw [first] at same
        exact (Except.ok.inj (Option.some.inj same)).symm
      · rintro _ ⟨⟩
        exact first

/-- What comes behind a token that is taken. The end of the source is refused. -/
theorem next_bind {further : Token → Guarded β} {other : Token → Parse β}
    (later : ∀ token, course.Scanned token → token.kind ≠ .endOfSource →
      (∀ known ∈ head, known = token) → ∀ left < size,
        Follows course calls none gives left limit (further token) (other token))
    (ends : ∀ token, course.Scanned token → token.kind = .endOfSource →
      (∀ known ∈ head, known = token) → ∃ failure : ParseError,
        failure.span.Within course.source ∧
        (∀ desk, further token ⟨course.source, course.positions, calls⟩ desk =
          .error (.refused failure desk)) ∧
        ∀ cursor, other token cursor = .error (.refused failure cursor)) :
    Follows course calls head gives size limit (Guarded.next >>= further)
      (Parse.next >>= other) := by
  intro desk cursor stands length known
  obtain ⟨item, after, first, level, slot, taken, drawn, ran⟩ := stands.next calls
  have closed := stands.closed
  have some := List.length_pos_of_ne_nil closed.ne_nil
  rw [Guarded.bind_apply, Parse.bind_apply, ran]
  cases item with
  | error failure =>
      rw [Parse.next_failure closed first]
      exact .refused level
        (LexicalItem.within_of_scan (stands.scanned.subset (List.mem_of_head? first))) (by omega)
  | ok token =>
      have scanned : course.Scanned token := stands.scanned.subset (List.mem_of_head? first)
      have same : ∀ known ∈ head, known = token := fun other member => by
        have same := known other member
        rw [first] at same
        exact (Except.ok.inj (Option.some.inj same)).symm
      rw [Parse.next_token first]
      by_cases last : token.kind = .endOfSource
      · obtain ⟨failure, within, refuses, plainRefuses⟩ := ends token scanned last same
        rw [Guarded.take_last last]
        change Matches course gives limit (further token _ after) (other token _)
        rw [refuses, plainRefuses]
        exact .refused level within (by omega)
      · have behind := closed.behind first (by rintro _ ⟨⟩; exact last)
        have fewer := congrArg List.length behind
        rw [List.length_cons] at fewer
        rw [Guarded.take_inner last]
        refine later token scanned last same (LexicalItem.afterFirst cursor.items).length (by omega)
          _ _ ⟨⟨level.script, level.scanned, level.reads⟩, ?_, ?_⟩ rfl (by rintro _ ⟨⟩)
        · have total := stands.taken
          dsimp only
          omega
        · dsimp only
          rw [slot]
          simp
          omega

/-- What comes behind a token that has been looked at and is not the end of the source. -/
theorem skip_bind {token : Token} (inner : token.kind ≠ .endOfSource) {further : Token → Guarded β}
    {other : Parse β} (later : ∀ left < size,
      Follows course calls none gives left limit (further token) other) :
    Follows course calls (some token) gives size limit (Guarded.next >>= further)
      (Parse.skip >>= fun _ => other) := by
  intro desk cursor stands length known
  have taken : Follows course calls (some token) gives size limit (Guarded.next >>= further)
      (Parse.next >>= fun _ => other) := by
    refine next_bind (fun found _ _ same left fewer => ?_) (fun found _ last same => ?_)
    · obtain rfl := same token rfl
      exact later left fewer
    · obtain rfl := same token rfl
      exact (inner last).elim
  have same : (Parse.skip >>= fun _ => other) cursor = (Parse.next >>= fun _ => other) cursor := by
    rw [Parse.bind_apply, Parse.bind_apply, Parse.next_token (known token rfl), Parse.skip_eq]
    rfl
  rw [same]
  exact taken desk cursor stands length known

/-- A token that has been looked at is there when it is taken. -/
theorem takePeeked_bind {token : Token} (inner : token.kind ≠ .endOfSource) {further : Guarded β}
    {other : Parse β} (later : ∀ left < size,
      Follows course calls none gives left limit further other) :
    Follows course calls (some token) gives size limit (Guarded.takePeeked >>= fun _ => further)
      (Parse.skip >>= fun _ => other) := by
  intro desk cursor stands length known
  obtain ⟨item, after, first, _, _, _, _, ran⟩ := stands.next calls
  rw [known token rfl] at first
  obtain rfl := Option.some.inj first
  have same : (Guarded.takePeeked >>= fun _ => further)
      ⟨course.source, course.positions, calls⟩ desk =
      (Guarded.next >>= fun _ => further) ⟨course.source, course.positions, calls⟩ desk := by
    rw [Guarded.bind_apply, Guarded.bind_apply, Guarded.takePeeked, ran, Guarded.take_inner inner]
    rfl
  rw [same]
  exact skip_bind inner later desk cursor stands length known

variable {kind : TokenKind}

theorem expect (named : kind ≠ .endOfSource) :
    Follows course calls head (fun token => course.Scanned token ∧ token.kind = kind) size size
      (Guarded.expect kind) (Parse.expect kind) := by
  refine next_bind (fun token scanned _ _ left fewer => ?_) (fun token scanned last _ => ?_)
  · split
    · next same => exact pure ⟨scanned, same⟩ fewer
    · exact refuse _ scanned.within
  · have other : token.kind ≠ kind := fun same => named (same.symm.trans last)
    refine ⟨⟨.unexpectedToken token.kind kind, token.span⟩, scanned.within, fun desk => ?_,
      fun cursor => ?_⟩
    · rw [if_neg other]
      rfl
    · rw [if_neg other]
      rfl

/-- A token that is expected where it has been looked at. -/
theorem expected_bind {token : Token} (is : token.kind = kind) (named : kind ≠ .endOfSource)
    {further : Token → Guarded β} {other : Parse β} (later : ∀ left < size,
      Follows course calls none gives left limit (further token) other) :
    Follows course calls (some token) gives size limit (Guarded.expect kind >>= further)
      (Parse.skip >>= fun _ => other) := by
  unfold Guarded.expect
  rw [bind_assoc]
  refine skip_bind (is ▸ named) fun left fewer => ?_
  rw [if_pos is, pure_bind]
  exact later left fewer

/-- A token of the kind is taken, or else nothing happens. -/
theorem eatIf_bind (named : kind ≠ .endOfSource) {further : Option Token → Guarded β}
    {other : Option Token → Parse β}
    (taken : ∀ token, course.Scanned token → token.kind = kind → ∀ left < size,
      Follows course calls none gives left limit (further (some token)) (other (some token)))
    (missing : ∀ token, course.Scanned token → token.kind ≠ kind →
      Follows course calls (some token) gives size limit (further none) (other none)) :
    Follows course calls head gives size limit (Guarded.eatIf kind >>= further)
      (Parse.accept? kind >>= other) := by
  unfold Guarded.eatIf Parse.accept?
  rw [bind_assoc, bind_assoc]
  refine peek_bind fun token scanned _ => ?_
  by_cases is : token.kind = kind
  · rw [if_pos is, if_pos is, bind_assoc, bind_assoc]
    refine takePeeked_bind (is ▸ named) fun left fewer => ?_
    rw [pure_bind, pure_bind]
    exact taken token scanned is left fewer
  · rw [if_neg is, if_neg is, pure_bind, pure_bind]
    exact missing token scanned is

theorem accept_bind (named : kind ≠ .endOfSource) {further : Option Token → Guarded β}
    {other : Bool → Parse β}
    (taken : ∀ token, ∀ left < size,
      Follows course calls none gives left limit (further (some token)) (other true))
    (missing : Follows course calls none gives size limit (further none) (other false)) :
    Follows course calls head gives size limit (Guarded.eatIf kind >>= further)
      (Parse.accept kind >>= other) := by
  unfold Parse.accept
  rw [map_eq_pure_bind, bind_assoc]
  simp only [pure_bind]
  exact eatIf_bind named (fun token _ _ => taken token) fun _ _ _ => missing.forget

/-!
## Texts, spans and nodes
-/

theorem spelled_bind {token : Token} (scanned : course.Scanned token) {further : Token → Guarded β}
    {other : Parse β} (follows : Follows course calls head gives size limit (further token) other) :
    Follows course calls head gives size limit (Guarded.spelled token >>= further) other := by
  intro desk cursor stands length known
  rw [Guarded.bind_ok (scanned.spelled calls desk)]
  exact follows desk cursor stands length known

theorem merge_bind {left right : Span} (leftWithin : left.Within course.source)
    (rightWithin : right.Within course.source) {further : Span → Guarded β} {other : Parse β}
    (follows : Follows course calls head gives size limit (further (left.merge right)) other) :
    Follows course calls head gives size limit (Guarded.merge left right >>= further) other := by
  intro desk cursor stands length known
  rw [Guarded.bind_ok (course.merge leftWithin rightWithin calls desk)]
  exact follows desk cursor stands length known

theorem name : Follows course calls head (fun named => named.2.Within course.source) size size
    Guarded.name Parse.name := by
  refine (expect (by decide)).bind fun token found left fewer => ?_
  exact spelled_bind found.1 (pure (found.1.within) fewer)

/-- What is done to the script is done on both sides alike. -/
theorem scripted (change : Script → α × Script) (fewer : size < limit) :
    Follows course calls head (fun _ => True) size limit
      (fun _ desk =>
        .ok ((change desk.script).1, { desk with script := (change desk.script).2 }))
      (fun cursor =>
        .ok ((change cursor.script).1, { cursor with script := (change cursor.script).2 })) := by
  intro desk cursor stands length _
  dsimp only
  rw [stands.script]
  exact .answered ⟨⟨rfl, stands.scanned, stands.reads⟩, stands.taken, stands.drawn⟩ trivial
    (length ▸ fewer)

theorem pushExpression (node : Expression) (fewer : size < limit) :
    Follows course calls head (fun _ => True) size limit (Guarded.pushExpression node)
      (Parse.pushExpression node) :=
  scripted (fun script => script.pushExpression node) fewer

theorem pushStatement (node : Statement) (fewer : size < limit) :
    Follows course calls head (fun _ => True) size limit (Guarded.pushStatement node)
      (Parse.pushStatement node) :=
  scripted (fun script => script.pushStatement node) fewer

theorem link (sequence : List StatementRef) (fewer : size < limit) :
    Follows course calls head (fun _ => True) size limit (Guarded.link sequence)
      (Parse.link sequence) :=
  scripted (fun script => (sequence.head?, script.link sequence)) fewer

end Follows

/-!
## Calls
-/

/-- What a production calls before it has taken a token is of a lower rank. -/
def Production.rank : Production → Nat
  | separators | operand | suffixOf | parameters => 0
  | expressionFrom | continued | printedRest => 1
  | unary | listUntil => 2
  | statement => 3
  | sequence => 4
  | block | furtherBranches => 5
  | recordBody => 6

theorem Production.rank_le (production : Production) : production.rank ≤ 6 := by
  cases production <;> decide

/-- The production may be called where so many items are left. Of the calls that go on, those
that began here too are of a higher rank, and both bounds on the depth suffice. -/
structure Ready (course : Course) (calls : List (Production × Nat)) (size : Nat)
    (production : Production) (bound other : Nat) : Prop where
  apart : ∀ call ∈ calls, call.2 + size ≤ course.total ∧
    (call.2 + size = course.total → production.rank < call.1.rank)
  deep : 8 * size + production.rank < bound
  plain : 8 * size + production.rank < other

/-- The production is being called and has not taken a token. -/
structure Inside (course : Course) (calls : List (Production × Nat)) (size : Nat)
    (production : Production) (bound other : Nat) : Prop where
  apart : ∀ call ∈ calls, call.2 + size ≤ course.total ∧
    (call.2 + size = course.total → production.rank ≤ call.1.rank)
  deep : 8 * size + production.rank ≤ bound
  plain : 8 * size + production.rank ≤ other

variable {course : Course} {calls : List (Production × Nat)} {size bound other : Nat}
  {production inner : Production}

/-- Before a token is taken, productions of a lower rank may be called. -/
theorem Inside.same (inside : Inside course calls size production bound other)
    (lower : inner.rank < production.rank) : Ready course calls size inner bound other where
  apart call member :=
    ⟨(inside.apart call member).1, fun here => lower.trans_le ((inside.apart call member).2 here)⟩
  deep := (Nat.add_lt_add_left lower _).trans_le inside.deep
  plain := (Nat.add_lt_add_left lower _).trans_le inside.plain

/-- Behind a token all productions may be called. -/
theorem Inside.later (inside : Inside course calls size production bound other) {left : Nat}
    (fewer : left < size) : Ready course calls left inner bound other := by
  have rank := inner.rank_le
  have deep := inside.deep
  have plain := inside.plain
  refine ⟨fun call member => ?_, by omega, by omega⟩
  have before := (inside.apart call member).1
  exact ⟨by omega, fun here => absurd here (by omega)⟩

/-- Behind no more items than before, productions of a lower rank may be called. -/
theorem Inside.upTo (inside : Inside course calls size production bound other)
    (lower : inner.rank < production.rank) {left : Nat} (fewer : left ≤ size) :
    Ready course calls left inner bound other := by
  rcases Nat.lt_or_eq_of_le fewer with fewer | rfl
  · exact inside.later fewer
  · exact inside.same lower

/-- What holds where a production has begun holds behind a token, too. -/
theorem Inside.shrink (inside : Inside course calls size production bound other) {left : Nat}
    (fewer : left ≤ size) : Inside course calls left production bound other := by
  have deep := inside.deep
  have plain := inside.plain
  refine ⟨fun call member => ?_, by omega, by omega⟩
  obtain ⟨before, ranked⟩ := inside.apart call member
  exact ⟨by omega, fun here => ranked (by omega)⟩

/-- A production that may be called is not at a standstill. -/
theorem Ready.enter {α : Type} {head : Option Token} {given : α → Prop} {limit : Nat}
    {guarded : Guarded α} {plain : Parse α}
    (ready : Ready course calls size production (bound + 1) (other + 1))
    (body : ∀ within, Inside course within size production bound other →
      Follows course within head given size limit guarded plain) :
    Follows course calls head given size limit (Guarded.enter production guarded) plain := by
  intro desk cursor stands length known
  have here : desk.taken + size = course.total := length ▸ stands.taken
  have absent : (production, desk.taken) ∉ calls := fun member =>
    Nat.lt_irrefl _ ((ready.apart _ member).2 here)
  rw [Guarded.enter, if_neg absent]
  refine body _ ⟨fun call member => ?_, Nat.lt_succ_iff.mp ready.deep,
    Nat.lt_succ_iff.mp ready.plain⟩ desk cursor stands length known
  rcases List.mem_cons.mp member with rfl | member
  · exact ⟨here.le, fun _ => Nat.le_refl _⟩
  · exact ⟨(ready.apart call member).1, fun here => ((ready.apart call member).2 here).le⟩

/-- A production that calls itself at once is at a standstill. -/
theorem Guarded.enter_twice {α : Type} (production : Production) (body : Guarded α) (watch : Watch)
    (desk : Desk) (apart : (production, desk.taken) ∉ watch.calls) :
    enter production (enter production body) watch desk = .error (.broken .standstill) := by
  rw [enter, if_neg apart, enter, if_pos List.mem_cons_self]

/-!
## Separators
-/

namespace Follows

variable {β : Type} {head : Option Token} {gives : β → Prop} {limit : Nat}

/-- To look at a token again changes nothing. -/
theorem look_bind {token : Token} {further : Token → Guarded β} {other : Parse β}
    (follows : Follows course calls (some token) gives size limit (further token) other) :
    Follows course calls (some token) gives size limit (Guarded.peek >>= further) other := by
  intro desk cursor stands length known
  have first := known token rfl
  have looked : Follows course calls (some token) gives size limit (Guarded.peek >>= further)
      (Parse.peek >>= fun _ => other) := by
    refine peek_bind fun found _ same => ?_
    obtain rfl := same token rfl
    exact follows
  have same : (Parse.peek >>= fun _ => other) cursor = other cursor := by
    rw [Parse.bind_apply, Parse.peek_token first]
    rfl
  rw [← same]
  exact looked desk cursor stands length known

/-- One of the kinds is tried, and the other ones if the token is not of this kind. -/
private theorem eatAny_first {token : Token} {kind : TokenKind} {kinds : List TokenKind}
    (named : kind ≠ .endOfSource) {further : Bool → Guarded β} {consumed kept : Parse β}
    (taken : ∀ left < size,
      Follows course calls none gives left limit (further true) consumed)
    (more : Follows course calls (some token) gives size limit (Guarded.eatAny kinds >>= further)
      (if kinds.contains token.kind then Parse.skip >>= fun _ => consumed else kept)) :
    Follows course calls (some token) gives size limit
      ((if token.kind = kind then Guarded.takePeeked >>= fun _ => Pure.pure (some token)
          else Pure.pure none) >>= fun found =>
        (match found with
          | some _ => Pure.pure true
          | none => Guarded.eatAny kinds) >>= further)
      (if (kind :: kinds).contains token.kind then Parse.skip >>= fun _ => consumed
        else kept) := by
  by_cases is : token.kind = kind
  · rw [if_pos is, bind_assoc, if_pos (by simp [is])]
    refine takePeeked_bind (is ▸ named) fun left fewer => ?_
    rw [pure_bind, pure_bind]
    exact taken left fewer
  · have contained : (kind :: kinds).contains token.kind = kinds.contains token.kind := by
      simp [is]
    rw [if_neg is, pure_bind, contained]
    exact more

private theorem eatAny_known {token : Token} {kinds : List TokenKind}
    (named : .endOfSource ∉ kinds) {further : Bool → Guarded β} {consumed kept : Parse β}
    (taken : ∀ left < size,
      Follows course calls none gives left limit (further true) consumed)
    (missing : Follows course calls (some token) gives size limit (further false) kept) :
    Follows course calls (some token) gives size limit (Guarded.eatAny kinds >>= further)
      (if kinds.contains token.kind then Parse.skip >>= fun _ => consumed else kept) := by
  induction kinds with
  | nil =>
      rw [Guarded.eatAny, pure_bind]
      exact missing
  | cons kind kinds ih =>
      obtain ⟨inner, named⟩ := not_or.mp (mt List.mem_cons.mpr named)
      rw [Guarded.eatAny, bind_assoc, Guarded.eatIf, bind_assoc]
      exact look_bind (eatAny_first (Ne.symm inner) taken (ih named))

/-- A token of one of the kinds is taken, or else nothing happens. -/
theorem eatAny_bind {kind : TokenKind} {kinds : List TokenKind}
    (named : .endOfSource ∉ kind :: kinds) {further : Bool → Guarded β} {consumed kept : Parse β}
    (taken : ∀ left < size,
      Follows course calls none gives left limit (further true) consumed)
    (missing : ∀ token,
      Follows course calls (some token) gives size limit (further false) kept) :
    Follows course calls head gives size limit (Guarded.eatAny (kind :: kinds) >>= further)
      (do
        let token ← Parse.peek
        if (kind :: kinds).contains token.kind then Parse.skip >>= fun _ => consumed
        else kept) := by
  obtain ⟨inner, others⟩ := not_or.mp (mt List.mem_cons.mpr named)
  rw [Guarded.eatAny, bind_assoc, Guarded.eatIf, bind_assoc]
  exact peek_bind fun token _ _ =>
    eatAny_first (Ne.symm inner) taken (eatAny_known others taken (missing token))

end Follows

namespace Parse

/-- Skips tokens of the kinds and looks at what is behind them. -/
def skipped (kinds : List TokenKind) : Parse Unit := do
  skipKinds kinds
  let _ ← peek
  return ()

theorem skipped_eq {cursor : Cursor} (closed : LexicalItem.Closed cursor.items)
    {kinds : List TokenKind} (named : .endOfSource ∉ kinds) :
    skipped kinds cursor =
      (do
        let token ← peek
        if kinds.contains token.kind then skip >>= fun _ => skipped kinds
        else return ()) cursor := by
  obtain ⟨items, script⟩ := cursor
  cases closed with
  | @last token ends =>
      have missing : kinds.contains token.kind = false := by
        rw [ends]
        simpa using named
      change _ = (if kinds.contains token.kind then (skip >>= fun _ => skipped kinds : Parse Unit)
        else return ()) _
      rw [missing]
      rfl
  | @item item rest inner closed =>
      cases item with
      | error failure => rfl
      | ok token =>
          change _ = (if kinds.contains token.kind then
              (skip >>= fun _ => skipped kinds : Parse Unit)
            else return ()) _
          obtain ⟨following, more, rfl⟩ := List.exists_cons_of_ne_nil closed.ne_nil
          by_cases contained : kinds.contains token.kind = true
          · have dropped : dropKinds kinds (.ok token :: following :: more) =
                dropKinds kinds (following :: more) := if_pos contained
            rw [if_pos contained]
            exact congrArg (fun items => (do let _ ← peek; return ()) (⟨items, script⟩ : Cursor))
              dropped
          · have kept : dropKinds kinds (.ok token :: following :: more) =
                .ok token :: following :: more := if_neg contained
            rw [if_neg contained]
            exact congrArg (fun items => (do let _ ← peek; return ()) (⟨items, script⟩ : Cursor))
              kept

end Parse

namespace Follows

variable {β : Type} {head : Option Token} {gives : β → Prop} {limit : Nat}

theorem separators {kind : TokenKind} {kinds : List TokenKind}
    (named : .endOfSource ∉ kind :: kinds)
    (ready : Ready course calls size .separators bound bound) :
    Follows course calls head (fun _ => True) size (size + 1)
      (Guarded.separators bound (kind :: kinds)) (Parse.skipped (kind :: kinds)) := by
  induction bound generalizing calls size head with
  | zero => exact absurd ready.deep (Nat.not_lt_zero _)
  | succ bound ih =>
      rw [Guarded.separators]
      refine ready.enter fun _ inside => ?_
      refine of_eq (fun cursor closed => Parse.skipped_eq closed named)
        (eatAny_bind named (fun left fewer => ?_) fun token => ?_)
      · exact (ih ⟨(inside.later fewer).apart, (inside.later fewer).deep,
          (inside.later fewer).deep⟩).mono (by omega)
      · exact pure trivial (Nat.lt_succ_self size)

/-- What comes behind separators begins with a look at a token, so that a failure of the lexer
is met by both. -/
theorem separators_bind {kind : TokenKind} {kinds : List TokenKind}
    (named : .endOfSource ∉ kind :: kinds)
    (ready : Ready course calls size .separators bound other)
    {further : Guarded β} {next : Token → Parse β} (later : ∀ left ≤ size,
      Follows course calls none gives left limit further (Parse.peek >>= next)) :
    Follows course calls head gives size limit
      (Guarded.separators bound (kind :: kinds) >>= fun _ => further)
      (Parse.skipKinds (kind :: kinds) >>= fun _ => Parse.peek >>= next) := by
  have follows : Follows course calls head gives size limit
      (Guarded.separators bound (kind :: kinds) >>= fun _ => further)
      (Parse.skipped (kind :: kinds) >>= fun _ => Parse.peek >>= next) :=
    (separators named ⟨ready.apart, ready.deep, ready.deep⟩).bind fun _ _ left fewer =>
      later left (Nat.lt_succ_iff.mp fewer)
  refine of_eq (fun cursor _ => ?_) follows
  change (Parse.peek >>= next) ⟨Parse.dropKinds (kind :: kinds) cursor.items, cursor.script⟩ =
    ((Parse.peek >>= fun _ => Pure.pure ()) >>= fun _ => Parse.peek >>= next)
      ⟨Parse.dropKinds (kind :: kinds) cursor.items, cursor.script⟩
  generalize Parse.dropKinds (kind :: kinds) cursor.items = items
  rcases items with _ | ⟨_ | _, _⟩ <;> rfl

theorem separators_accept_bind {kind accepted : TokenKind} {kinds : List TokenKind}
    (named : .endOfSource ∉ kind :: kinds)
    (ready : Ready course calls size .separators bound other)
    {further : Guarded β} {next : Bool → Parse β} (later : ∀ left ≤ size,
      Follows course calls none gives left limit further (Parse.accept accepted >>= next)) :
    Follows course calls head gives size limit
      (Guarded.separators bound (kind :: kinds) >>= fun _ => further)
      (Parse.skipKinds (kind :: kinds) >>= fun _ => Parse.accept accepted >>= next) := by
  unfold Parse.accept Parse.accept? at later ⊢
  simp only [map_eq_pure_bind, bind_assoc] at later ⊢
  exact separators_bind named ready later

end Follows

end ScriptEngine
