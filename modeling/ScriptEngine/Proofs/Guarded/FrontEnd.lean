import ScriptEngine.Proofs.Guarded.Statements

/-!
# The front end with guards

A parser can be asked for expressions and for a whole script, one after the other and also
behind a refusal. Whatever it has been asked for, the guarded parser and the parser stand in
front of the same items, and the next call has the same answer in both. So no guard is ever
met: the front end does not break off on a source that is short enough
(`Desk.front_end_never_breaks`), and every call of the parser comes to an end
(`Desk.every_call_ends`).
-/

set_option autoImplicit false

namespace ScriptEngine

/-!
## One answer
-/

/-- Both calls have the same answer and leave the same to read. Not more items have been drawn
than given, and a refusal is for a place in the source. -/
inductive Concur {α : Type} (source : String) (budget : Nat) :
    Except GuardedStop (α × Desk) → Except ParseStop (α × Cursor) → Prop where
  | answered {value : α} {desk : Desk} {cursor : Cursor} (level : desk.Level source cursor)
      (drawn : desk.drawn ≤ budget) :
      Concur source budget (.ok (value, desk)) (.ok (value, cursor))
  | refused {failure : ParseError} {desk : Desk} {cursor : Cursor}
      (level : desk.Level source cursor) (within : failure.span.Within source)
      (drawn : desk.drawn ≤ budget) :
      Concur source budget (.error (.refused failure desk)) (.error (.refused failure cursor))

theorem Matches.concur {α : Type} {course : Course} {given : α → Prop} {limit : Nat}
    {guarded : Except GuardedStop (α × Desk)} {plain : Except ParseStop (α × Cursor)}
    (same : Matches course given limit guarded plain) :
    Concur course.source course.budget guarded plain := by
  cases same with
  | answered stands _ _ => exact .answered stands.toLevel stands.drawn_le
  | refused level within drawn => exact .refused level within drawn

theorem Concur.mono {α : Type} {source : String} {budget more : Nat}
    {guarded : Except GuardedStop (α × Desk)} {plain : Except ParseStop (α × Cursor)}
    (same : Concur source budget guarded plain) (higher : budget ≤ more) :
    Concur source more guarded plain := by
  cases same with
  | answered level drawn => exact .answered level (drawn.trans higher)
  | refused level within drawn => exact .refused level within (drawn.trans higher)

/-!
## What is left is known
-/

theorem Reader.length_placedFrom (offset : Nat) (characters : List Char) :
    (placedFrom offset characters).length = characters.length := by
  induction characters generalizing offset with
  | nil => rfl
  | cons character rest ih => exact congrArg (· + 1) (ih _)

theorem Reader.StandsAt.left_eq {nesting offset : Nat} {characters : List Char} {reader : Reader}
    (stands : StandsAt nesting offset characters reader) : reader.left = characters.length := by
  obtain ⟨back, ahead, rfl, rfl, _⟩ := stands
  rw [left, standing, length_placedFrom, List.length_append]

theorem Reader.Reads.unique {source : String} {reader : Reader} {items others : List LexicalItem}
    (reads : reader.Reads source items) (again : reader.Reads source others) : items = others := by
  obtain ⟨passed, characters, nesting, spelled, _, stands, rfl⟩ := reads
  obtain ⟨passed', characters', nesting', spelled', _, stands', rfl⟩ := again
  have count : characters.length = characters'.length :=
    stands.left_eq.symm.trans stands'.left_eq
  obtain ⟨rfl, rfl⟩ := List.append_inj' (spelled.symm.trans spelled') count
  rw [← stands.nesting_eq, stands'.nesting_eq]

/-- The desk knows what is left to read and what has been built. -/
theorem Desk.Level.unique {source : String} {desk : Desk} {cursor other : Cursor}
    (level : desk.Level source cursor) (again : desk.Level source other) : cursor = other := by
  have items : cursor.items = other.items := by
    have reads := level.reads
    have readsAgain := again.reads
    cases slot : desk.slot with
    | none =>
        rw [slot] at reads readsAgain
        exact reads.unique readsAgain
    | some item =>
        rw [slot] at reads readsAgain
        obtain ⟨head, left⟩ := reads
        obtain ⟨headAgain, leftAgain⟩ := readsAgain
        have behind := left.unique leftAgain
        cases item with
        | error failure =>
            rw [level.closed.behind head (by rintro _ ⟨⟩),
              again.closed.behind headAgain (by rintro _ ⟨⟩), behind]
        | ok token =>
            by_cases last : token.kind = .endOfSource
            · rw [← level.closed.last_again head last, behind,
                again.closed.last_again headAgain last]
            · rw [level.closed.behind head (by rintro _ ⟨⟩; exact last),
                again.closed.behind headAgain (by rintro _ ⟨⟩; exact last), behind]
  have script : cursor.script = other.script := level.script.symm.trans again.script
  cases cursor
  cases other
  cases items
  cases script
  rfl

/-- What the guarded call says, the other one can say in one way only. -/
theorem Concur.unique {α : Type} {source : String} {budget : Nat}
    {guarded : Except GuardedStop (α × Desk)} {plain other : Except ParseStop (α × Cursor)}
    (same : Concur source budget guarded plain) (again : Concur source budget guarded other) :
    plain = other := by
  cases same with
  | answered level _ =>
      cases again with
      | answered levelAgain _ => rw [level.unique levelAgain]
  | refused level _ _ =>
      cases again with
      | refused levelAgain _ _ => rw [level.unique levelAgain]

/-!
## Calls of the parser
-/

namespace Desk

variable {source : String} {desk : Desk} {cursor : Cursor}

/-- A call of the parser that begins here. Every item that is left may be drawn. -/
def Level.course (_ : desk.Level source cursor) (positions : Bool)
    (short : positions = true → source.utf8ByteSize < 2 ^ 32) : Course where
  source := source
  positions := positions
  short := short
  total := desk.taken + cursor.items.length
  budget := desk.drawn + cursor.items.length

theorem Level.stands (level : desk.Level source cursor) {positions : Bool}
    (short : positions = true → source.utf8ByteSize < 2 ^ 32) :
    desk.Stands (level.course positions short) cursor :=
  ⟨level, rfl, Nat.le_add_right _ _⟩

theorem Level.ready (level : desk.Level source cursor) {positions : Bool}
    (short : positions = true → source.utf8ByteSize < 2 ^ 32) (production : Production)
    {bound other : Nat} (deep : cursor.depthBound ≤ bound) (plain : cursor.depthBound ≤ other) :
    Ready (level.course positions short) [] cursor.items.length production bound other := by
  have rank := production.rank_le
  unfold Cursor.depthBound at deep plain
  exact ⟨by rintro _ ⟨⟩, by omega, by omega⟩

end Desk

namespace Concur

variable {α β : Type} {source : String} {budget : Nat} {watch : Watch} {desk : Desk}
  {cursor : Cursor}

theorem bind {guarded : Guarded α} {plain : Parse α} {further : α → Guarded β}
    {other : α → Parse β} (first : Concur source budget (guarded watch desk) (plain cursor))
    (later : ∀ value (desk : Desk) cursor, desk.Level source cursor → desk.drawn ≤ budget →
      Concur source budget (further value watch desk) (other value cursor)) :
    Concur source budget ((guarded >>= further) watch desk) ((plain >>= other) cursor) := by
  rw [Guarded.bind_apply, Parse.bind_apply]
  revert first
  generalize guarded watch desk = answer
  generalize plain cursor = plainAnswer
  rintro (⟨level, drawn⟩ | ⟨level, within, drawn⟩)
  · exact later _ _ _ level drawn
  · exact .refused level within drawn

/-- What is done to the script is done on both sides alike. -/
theorem scripted (level : desk.Level source cursor) (drawn : desk.drawn ≤ budget)
    (change : Script → α × Script) :
    Concur source budget
      (.ok ((change desk.script).1, { desk with script := (change desk.script).2 }))
      (.ok ((change cursor.script).1, { cursor with script := (change cursor.script).2 })) := by
  rw [level.script]
  exact .answered ⟨rfl, level.scanned, level.reads⟩ drawn

theorem link (level : desk.Level source cursor) (drawn : desk.drawn ≤ budget)
    (sequence : List StatementRef) :
    Concur source budget (Guarded.link sequence watch desk) (Parse.link sequence cursor) :=
  scripted level drawn fun script => (sequence.head?, script.link sequence)

/-- What stands inside of a call agrees with what comes at the end of it. -/
theorem of_matches_bind {course : Course} {given : α → Prop} {limit : Nat} {guarded : Guarded α}
    {plain : Parse α} {further : α → Guarded β} {other : α → Parse β}
    (first : Matches course given limit (guarded watch desk) (plain cursor))
    (later : ∀ value (desk : Desk) cursor, desk.Stands course cursor →
      Concur course.source course.budget (further value watch desk) (other value cursor)) :
    Concur course.source course.budget ((guarded >>= further) watch desk)
      ((plain >>= other) cursor) := by
  rw [Guarded.bind_apply, Parse.bind_apply]
  revert first
  generalize guarded watch desk = answer
  generalize plain cursor = plainAnswer
  rintro (⟨stands, _, _⟩ | ⟨level, within, drawn⟩)
  · exact later _ _ _ stands
  · exact .refused level within drawn

end Concur

/-- The last token of a call may be the end of the source. -/
theorem Desk.Stands.expect {course : Course} {desk : Desk} {cursor : Cursor}
    (stands : desk.Stands course cursor) (kind : TokenKind) :
    Concur course.source course.budget
      (Guarded.expect kind ⟨course.source, course.positions, []⟩ desk)
      (Parse.expect kind cursor) := by
  obtain ⟨item, after, first, level, slot, taken, drawn, ran⟩ := stands.next []
  have closed := stands.closed
  have some := List.length_pos_of_ne_nil closed.ne_nil
  have within := LexicalItem.within_of_scan
    (stands.scanned.subset (List.mem_of_head? first))
  rw [Guarded.expect, Parse.expect, Guarded.bind_apply, Parse.bind_apply, ran]
  cases item with
  | error failure =>
      rw [Parse.next_failure closed first]
      exact .refused level within (by omega)
  | ok token =>
      rw [Parse.next_token first]
      have settled {found : Desk} (level : found.Level course.source
          { cursor with items := LexicalItem.afterFirst cursor.items })
          (drawn : found.drawn ≤ course.budget) :
          Concur course.source course.budget
            ((if token.kind = kind then Pure.pure token
              else Guarded.refuse (.unexpectedToken token.kind kind) token.span : Guarded Token)
              ⟨course.source, course.positions, []⟩ found)
            ((if token.kind = kind then Pure.pure token
              else Parse.refuse (.unexpectedToken token.kind kind) token.span : Parse Token)
              { cursor with items := LexicalItem.afterFirst cursor.items }) := by
        split
        · exact .answered level drawn
        · exact .refused level within drawn
      have fits : after.drawn ≤ course.budget := by omega
      by_cases last : token.kind = .endOfSource
      · rw [Guarded.take_last last]
        exact settled level fits
      · have counted : ({ after with taken := after.taken + 1 } : Desk).Level course.source
            { cursor with items := LexicalItem.afterFirst cursor.items } :=
          ⟨level.script, level.scanned, level.reads⟩
        rw [Guarded.take_inner last]
        exact settled counted fits

namespace Desk.Level

variable {source : String} {desk : Desk} {cursor : Cursor} {positions : Bool} {bound other : Nat}

theorem matches_of_follows {α : Type} {given : α → Prop} {limit : Nat} {guarded : Guarded α}
    {plain : Parse α} (level : desk.Level source cursor)
    (short : positions = true → source.utf8ByteSize < 2 ^ 32)
    (follows : Follows (level.course positions short) [] none given cursor.items.length limit
      guarded plain) :
    Matches (level.course positions short) given limit (guarded ⟨source, positions, []⟩ desk)
      (plain cursor) :=
  follows desk cursor (level.stands short) rfl (by rintro _ ⟨⟩)

theorem expression (level : desk.Level source cursor)
    (short : positions = true → source.utf8ByteSize < 2 ^ 32)
    (deep : cursor.depthBound ≤ bound) (plain : cursor.depthBound ≤ other) :
    Concur source (desk.drawn + cursor.items.length)
      (Guarded.expression bound ⟨source, positions, []⟩ desk) (Parse.expression other cursor) :=
  (level.matches_of_follows short
    (Follows.expression (level.ready short .expressionFrom deep plain))).concur

/-- A whole source ends where the sequence of its statements does. -/
theorem program (level : desk.Level source cursor)
    (short : positions = true → source.utf8ByteSize < 2 ^ 32)
    (deep : cursor.depthBound ≤ bound) (plain : cursor.depthBound ≤ other) :
    Concur source (desk.drawn + cursor.items.length)
      (Guarded.program bound ⟨source, positions, []⟩ desk) (Parse.program other cursor) := by
  have sequence := level.matches_of_follows short
    ((Follows.statements (level.course positions short) bound other).sequence
      (level.ready short .sequence deep plain) [.endOfSource])
  refine Concur.of_matches_bind sequence fun statements desk cursor stands => ?_
  refine (stands.expect .endOfSource).bind fun _ desk cursor level drawn => ?_
  refine (Concur.link level drawn statements).bind fun first desk cursor level drawn => ?_
  exact Concur.scripted level drawn fun script => ({ script with first }, Script.empty)

end Desk.Level

/-!
## Calls in a row
-/

/-- What a parser can be asked for. -/
inductive Entry where
  | expression
  | program
deriving DecidableEq, Repr

namespace Desk

/-- A depth of calls that suffices wherever the parser stands in the source. -/
def depthBound (source : String) : Nat :=
  16 * (source.length + 1) + 16

/-- The desk behind a call, whether or not there was an answer. -/
def behindCall {α : Type} (desk : Desk) : Except GuardedStop (α × Desk) → Desk
  | .ok (_, after) => after
  | .error (.refused _ left) => left
  | .error _ => desk

def ofSource (source : String) : Desk where
  reader := Reader.ofSource source
  slot := none
  script := Script.empty
  drawn := 0
  taken := 0

def behind (source : String) (positions : Bool) (desk : Desk) : Entry → Desk
  | .expression =>
      desk.behindCall (Guarded.expression (depthBound source) ⟨source, positions, []⟩ desk)
  | .program => desk.behindCall (Guarded.program (depthBound source) ⟨source, positions, []⟩ desk)

/-- The desk of a source behind some calls. -/
def reached (source : String) (positions : Bool) (entries : List Entry) : Desk :=
  entries.foldl (behind source positions) (ofSource source)

end Desk

namespace Cursor

/-- The cursor behind a call, whether or not there was an answer. -/
def behindCall {α : Type} (cursor : Cursor) : Except ParseStop (α × Cursor) → Cursor
  | .ok (_, after) => after
  | .error (.refused _ left) => left
  | .error .exhausted => cursor

theorem afterExpression_eq (cursor : Cursor) :
    cursor.afterExpression = cursor.behindCall (Parse.expression cursor.depthBound cursor) := by
  unfold afterExpression behindCall
  rcases Parse.expression cursor.depthBound cursor with (_ | _) | _ <;> rfl

def behind (cursor : Cursor) : Entry → Cursor
  | .expression => cursor.afterExpression
  | .program => cursor.behindCall (Parse.program cursor.depthBound cursor)

/-- The cursor of a source behind some calls. -/
def behindAll (source : String) (entries : List Entry) : Cursor :=
  entries.foldl behind (ofSource source)

end Cursor

theorem Concur.behindCall {α : Type} {source : String} {budget : Nat} {desk : Desk}
    {cursor : Cursor} {guarded : Except GuardedStop (α × Desk)}
    {plain : Except ParseStop (α × Cursor)}
    (same : Concur source budget guarded plain) :
    (desk.behindCall guarded).Level source (cursor.behindCall plain) := by
  cases same with
  | answered level _ => exact level
  | refused level _ _ => exact level

theorem LexicalItem.length_scanFrom_le (nesting offset skipped : Nat) (characters : List Char) :
    (scanFrom nesting offset skipped characters).length ≤ characters.length + 1 := by
  induction characters generalizing nesting offset skipped with
  | nil => exact Nat.le_refl 1
  | cons character rest ih =>
      cases skipped with
      | succ skipped => exact (ih nesting offset skipped).trans (Nat.le_succ _)
      | zero =>
          rw [scanFrom]
          split
          next lexeme count _ =>
          cases lexeme with
          | blank => exact (ih ..).trans (Nat.le_succ _)
          | token kind => exact Nat.succ_le_succ (ih ..)
          | invalid cause => exact Nat.succ_le_succ (ih ..)

namespace Desk.Level

variable {source : String} {desk : Desk} {cursor : Cursor} {positions : Bool}

theorem length_le (level : desk.Level source cursor) :
    cursor.items.length ≤ source.length + 1 :=
  level.scanned.length_le.trans (LexicalItem.length_scanFrom_le 0 0 0 source.toList)

theorem depthBound_le (level : desk.Level source cursor) :
    cursor.depthBound ≤ Desk.depthBound source := by
  have length := level.length_le
  unfold Cursor.depthBound Desk.depthBound
  omega

/-- Whatever the parser has been asked for, both stand in front of the same. -/
theorem reached (short : positions = true → source.utf8ByteSize < 2 ^ 32) (entries : List Entry) :
    (Desk.reached source positions entries).Level source (Cursor.behindAll source entries) := by
  unfold Desk.reached Cursor.behindAll
  have begun : (Desk.ofSource source).Level source (Cursor.ofSource source) :=
    ⟨rfl, List.suffix_rfl, .ofSource source⟩
  generalize Desk.ofSource source = desk at begun
  generalize Cursor.ofSource source = cursor at begun
  induction entries generalizing desk cursor with
  | nil => exact begun
  | cons entry entries ih =>
      refine ih _ _ ?_
      cases entry with
      | expression =>
          rw [Cursor.behind, Cursor.afterExpression_eq]
          exact (begun.expression short begun.depthBound_le (Nat.le_refl _)).behindCall
      | program => exact (begun.program short begun.depthBound_le (Nat.le_refl _)).behindCall

end Desk.Level

/-!
## Listings
-/

/-- The line for an item, from the text that stands in the source where its span says. -/
def LexicalItem.basicLine? (source : String) : LexicalItem → Except Fault String
  | .error failure => .ok (failure.basicLine (LineTable.ofText source))
  | .ok token =>
      match token.span.text? source with
      | none => .error .textMissing
      | some lexeme =>
          match token.kind, DecimalText.number? lexeme.toList with
          | .number, none => .error .numberUnreadable
          | _, _ => .ok { token with lexeme }.basicLine

/-- The line for an item in a basic listing. -/
def LexicalItem.basicLine (source : String) : LexicalItem → String
  | .ok token => token.listingLine .basic
  | .error failure => failure.listingLine .basic (LineTable.ofText source)

/-- The end of the source is the last item. -/
def LexicalItem.isLast : LexicalItem → Bool
  | .ok token => token.kind = .endOfSource
  | .error _ => false

/-- Reads the source up to its end, at most so many items, and lists them. -/
def Reader.listing (source : String) : Nat → Reader → Except Fault (List String)
  | 0, _ => .error .standstill
  | bound + 1, reader => do
      let (item, later) ← reader.nextItem source true
      let line ← item.basicLine? source
      if item.isLast then
        return [line]
      else
        let lines ← later.listing source bound
        return line :: lines

theorem LexicalItem.basicLine?_of_scan {source : String} (short : source.utf8ByteSize < 2 ^ 32)
    {item : LexicalItem} (member : item ∈ scan source) :
    item.basicLine? source = .ok (item.basicLine source) := by
  cases item with
  | error failure => rfl
  | ok token =>
      rw [basicLine?, Token.text?_span short member]
      dsimp only
      split
      · next kindIs missing =>
          have read := Token.isSome_number? member kindIs
          rw [missing] at read
          cases read
      · rfl

theorem Reader.Reads.listing {source : String} (short : source.utf8ByteSize < 2 ^ 32)
    {reader : Reader} {items : List LexicalItem} (reads : reader.Reads source items)
    (scanned : items <:+ LexicalItem.scan source) {bound : Nat} (enough : items.length ≤ bound) :
    reader.listing source bound = .ok (items.map (LexicalItem.basicLine source)) := by
  induction bound generalizing reader items with
  | zero => exact (reads.ne_nil (List.length_eq_zero_iff.mp (Nat.le_zero.mp enough))).elim
  | succ bound ih =>
      have closed := (LexicalItem.closed_scanFrom 0 0 0 source.toList).of_suffix scanned
        reads.ne_nil
      obtain ⟨item, later, ran, head, left⟩ := reads.next fun _ => short
      have line := LexicalItem.basicLine?_of_scan short
        (scanned.subset (List.mem_of_head? head))
      rw [Reader.listing, ran]
      change (item.basicLine? source >>= fun line => if item.isLast then .ok [line]
        else later.listing source bound >>= fun lines => .ok (line :: lines)) = _
      rw [line]
      change (if item.isLast then .ok [item.basicLine source]
        else later.listing source bound >>= fun lines => .ok (item.basicLine source :: lines)) = _
      by_cases last : item.isLast = true
      · rw [if_pos last]
        cases closed with
        | last _ =>
            obtain rfl := Option.some.inj head
            rfl
        | @item first rest inner _ =>
            obtain rfl := Option.some.inj head
            cases first with
            | error failure => cases last
            | ok token => exact (inner token rfl (of_decide_eq_true last)).elim
      · have behind := closed.behind head (by
          rintro token rfl ends
          exact last (decide_eq_true ends))
        have fewer := congrArg List.length behind
        rw [List.length_cons] at fewer
        have rest := ih left ((LexicalItem.afterFirst_suffix items).trans scanned) (by omega)
        rw [if_neg last, rest]
        exact congrArg (fun items => Except.ok (items.map (LexicalItem.basicLine source)))
          behind.symm

/-!
## The front end
-/

/-- What becomes of a call: its value, or the one-line form of its refusal. -/
def Guarded.report {α : Type} (source : String) :
    Except GuardedStop (α × Desk) → Except Fault (Except String α)
  | .ok (value, _) => .ok (.ok value)
  | .error (.refused failure _) => .ok (.error (failure.oneLine (LineTable.ofText source)))
  | .error (.broken fault) => .error fault
  | .error .exhausted => .error .standstill

/-- What the parser's call comes to. -/
def Cursor.report {α : Type} (source : String) (cursor : Cursor) (production : Nat → Parse α) :
    Except String α :=
  ((cursor.parse production).map Prod.fst).mapError
    fun failure => failure.oneLine (LineTable.ofText source)

theorem Concur.report {α : Type} {source : String} {budget : Nat} {cursor : Cursor}
    {guarded : Except GuardedStop (α × Desk)} {production : Nat → Parse α}
    (same : Concur source budget guarded (production cursor.depthBound cursor)) :
    Guarded.report source guarded = .ok (cursor.report source production) := by
  unfold Cursor.report Cursor.parse
  generalize production cursor.depthBound cursor = plain at same
  cases same <;> rfl

/-- For every source that is shorter than a word can count, all of its items are read and listed,
and behind whatever calls of the parser the next one comes to what the parser says, an answer or
a refusal in one line. No fault arises. -/
theorem Desk.front_end_never_breaks (source : String) (short : source.utf8ByteSize < 2 ^ 32) :
    (∀ bound, source.length < bound →
      (Reader.ofSource source).listing source bound =
        .ok ((LexicalItem.scan source).map (LexicalItem.basicLine source))) ∧
    ∀ entries bound, Desk.depthBound source ≤ bound →
      let desk := Desk.reached source true entries
      let cursor := Cursor.behindAll source entries
      Guarded.report source (Guarded.expression bound ⟨source, true, []⟩ desk) =
          .ok (cursor.report source Parse.expression) ∧
        Guarded.report source (Guarded.program bound ⟨source, true, []⟩ desk) =
          .ok (cursor.report source Parse.program) := by
  have looked : true = true → source.utf8ByteSize < 2 ^ 32 := fun _ => short
  refine ⟨fun bound enough => ?_, fun entries bound deep => ?_⟩
  · have length := LexicalItem.length_scanFrom_le 0 0 0 source.toList
    have characters : source.toList.length = source.length := String.length_toList
    exact (Reader.Reads.ofSource source).listing short List.suffix_rfl
      (length.trans (by omega))
  · have level := Desk.Level.reached looked entries
    have deep := level.depthBound_le.trans deep
    exact ⟨(level.expression looked deep (Nat.le_refl _)).report,
      (level.program looked deep (Nat.le_refl _)).report⟩

/-- The last line of a source that ends inside of a text, behind a character of two bytes. -/
theorem Desk.front_end_never_breaks_unclosed :
    "é\n'a".utf8ByteSize < 2 ^ 32 ∧
      (Reader.ofSource "é\n'a").listing "é\n'a" 5 =
        .ok ["[line 1] Error: Unexpected character: é", "NEWLINE  null",
          "[line 2] Error: Unterminated string.", "EOF  null"] ∧
      Guarded.report "é\n'a" (Guarded.program 96 ⟨"é\n'a", true, []⟩
          (Desk.reached "é\n'a" true [.expression])) =
        .ok (.error "(2) [Parser] Unterminated string literal") := by
  have short : "é\n'a".utf8ByteSize < 2 ^ 32 := by decide
  have runs := Desk.front_end_never_breaks "é\n'a" short
  refine ⟨short, ?_, ?_⟩
  · rw [runs.1 5 (by decide)]
    decide
  · rw [(runs.2 [.expression] 96 (by decide)).2]
    rfl

/-- Every call of the parser, on every source and behind whatever calls, comes to an end. From
some depth of calls on it has one and the same answer. This is the answer of a parser in which
no production is called again before a token has been taken, and which draws at most one item
more than the source has characters. -/
theorem Desk.every_call_ends (source : String) (entries : List Entry) :
    let desk := Desk.reached source false entries
    let cursor := Cursor.behindAll source entries
    let budget := desk.drawn + (source.length + 1)
    ∀ bound other, cursor.depthBound ≤ bound → cursor.depthBound ≤ other →
      Parse.expression bound cursor = Parse.expression other cursor ∧
      Parse.program bound cursor = Parse.program other cursor ∧
      Concur source budget (Guarded.expression bound ⟨source, false, []⟩ desk)
        (Parse.expression other cursor) ∧
      Concur source budget (Guarded.program bound ⟨source, false, []⟩ desk)
        (Parse.program other cursor) := by
  intro desk cursor budget bound other deep plain
  have unlooked : false = true → source.utf8ByteSize < 2 ^ 32 := by rintro ⟨⟩
  have level := Desk.Level.reached unlooked entries
  have enough := Nat.add_le_add_left level.length_le desk.drawn
  have expression := level.expression unlooked deep plain
  have program := level.program unlooked deep plain
  exact ⟨(level.expression unlooked deep deep).unique expression,
    (level.program unlooked deep deep).unique program, expression.mono enough,
    program.mono enough⟩

/-- A list that is still open where the source ends: the depth of the calls makes no difference,
and the end is met without a standstill. -/
theorem Desk.every_call_ends_in_list :
    Parse.program 64 (Cursor.behindAll "f(" []) = Parse.program 1000 (Cursor.behindAll "f(" []) ∧
      Guarded.report "f("
          (Guarded.program 1000 ⟨"f(", false, []⟩ (Desk.reached "f(" false [])) =
        .ok (.error "(1) [Parser] Unexpected end of file") := by
  have depth : (Cursor.behindAll "f(" []).depthBound = 64 := by decide
  obtain ⟨_, same, _, _⟩ :=
    Desk.every_call_ends "f(" [] 64 1000 depth.le (depth.le.trans (by decide))
  obtain ⟨_, _, _, concur⟩ :=
    Desk.every_call_ends "f(" [] 1000 (Cursor.behindAll "f(" []).depthBound
      (depth.le.trans (by decide)) (Nat.le_refl _)
  refine ⟨same, ?_⟩
  rw [concur.report]
  rfl

end ScriptEngine
