import Mathlib
import ScriptEngine.Proofs.Grammar.Unplaced
import ScriptEngine.Proofs.Token.Spaced

/-!
# Layout does not matter

Blanks and comments that are added next to a token make the gap there longer, and nothing
else. All tokens are recognised as before, from other places on, and so the parser answers
the same but for these places.
-/

set_option autoImplicit false

namespace ScriptEngine

/-- What can be added between tokens: blanks, and inside of brackets also newlines and
comments with a newline behind them. A comment without one can be the last of it, if the
line or the source ends there. -/
inductive Filler (nested lineEnds : Bool) : List Char → Prop where
  | nothing : Filler nested lineEnds []
  | blank {character : Char} {rest : List Char} (blank : isBlank character = true)
      (inner : character = '\n' → nested = true) (more : Filler nested lineEnds rest) :
      Filler nested lineEnds (character :: rest)
  | comment {body rest : List Char} (line : ∀ character ∈ body, character ≠ '\n')
      (inner : nested = true) (more : Filler nested lineEnds rest) :
      Filler nested lineEnds ('#' :: (body ++ '\n' :: rest))
  | lastComment {body : List Char} (line : ∀ character ∈ body, character ≠ '\n')
      (ends : lineEnds = true) : Filler nested lineEnds ('#' :: body)

/-- Whether a line or the source ends in front of these tokens. -/
def Token.lineEnds : List Token → Bool
  | [] => true
  | token :: _ => token.kind.endsLine

/-- The number of brackets that are open behind the tokens of a source. -/
def Token.depth (tokens : List Token) : Nat :=
  Token.depthFrom 0 tokens

theorem Lexeme.eq_newline_of_endsLine {nested : Bool} {character : Char} {rest : List Char}
    {kind : TokenKind} {count : Nat}
    (found : Lexeme.first nested character rest = (.token kind, count))
    (ends : kind.endsLine = true) : character = '\n' := by
  have inner := Lexeme.first_ne_endOfSource nested character rest
  rw [found] at inner
  have newline : kind = .newline ∨ kind = .endOfSource := by simpa [TokenKind.endsLine] using ends
  rcases newline with newline | rfl
  · exact (Lexeme.first_newline_iff found).mp newline
  · exact (inner rfl).elim

theorem Filler.gap {nested lineEnds : Bool} {behind filler : List Char}
    (filled : Filler nested lineEnds filler)
    (ends : lineEnds = true → ∀ next ∈ behind.head?, next = '\n') : Gap nested behind filler := by
  induction filled with
  | nothing => exact .nothing
  | blank blank inner _ ih => exact .blank blank inner ih
  | comment line inner _ ih => exact .comment line (by simp) (.blank rfl (fun _ => inner) ih)
  | @lastComment body line lineEnds =>
      have comment : Gap nested behind ('#' :: (body ++ [])) :=
        .comment line (ends lineEnds) .nothing
      rwa [List.append_nil] at comment

/-- Where a token stands among the tokens of a source: the lexer has read those before it in
`front`, and begins its lexeme there. -/
structure Token.StandsAt (source : String) (before : List Token) (token : Token)
    (front back : List Char) : Prop where
  split : source.toList = front ++ (token.lexeme.toList ++ back)
  ready : ∃ nesting,
    LexicalItem.Ready front (token.lexeme.toList ++ back) (before.map .ok) nesting
  span : token.span =
    Span.between (utf8Length front) (utf8Length (front ++ token.lexeme.toList))

/-- The changed source has the tokens of the other one, and is accepted or refused as that
one is, with the same script or the same failure but for the places in them. -/
structure ReadsAs (changed source : String) (tokens : List Token) : Prop where
  tokens : ∃ moved : List Token, LexicalItem.scan changed = moved.map .ok ∧
    moved.map Token.word = tokens.map Token.word
  accepted : ∀ script, Script.ofSource source = .ok script →
    ∃ other, Script.ofSource changed = .ok other ∧ other.unplaced = script.unplaced
  refused : ∀ failure, Script.ofSource source = .error failure →
    ∃ other, Script.ofSource changed = .error other ∧ other.unplaced = failure.unplaced

namespace LexicalItem

variable {front gap other rest : List Char} {before : List Token} {nesting : Nat}

/-- A gap can be exchanged for another one, if that is not empty where the gap was not. -/
theorem scan_regap (passes : Passes (gap ++ rest) 0 0 front (before.map .ok) nesting)
    (skipped : Gap (0 < nesting) rest gap) (changed : Gap (0 < nesting) rest other)
    (kept : other = [] → gap = []) :
    (scan (String.ofList (front ++ (other ++ rest)))).map unplaced =
      (scan (String.ofList (front ++ (gap ++ rest)))).map unplaced := by
  by_cases nothing : other = []
  · rw [nothing, kept nothing]
  · obtain ⟨moved, final, moves, same⟩ :=
      passes.transfer (changed.apart nothing) (sheltered_refl 0 before) 0
    have items : (moved.map .ok : List LexicalItem).map unplaced =
        (before.map .ok : List LexicalItem).map unplaced := by
      rw [map_unplaced_ok, map_unplaced_ok, same]
    have depth : final = nesting := by
      rw [moves.last_eq, passes.last_eq, ← foldl_nestingAfter_unplaced, items,
        foldl_nestingAfter_unplaced]
    subst depth
    rw [scan, scan, String.toList_ofList, String.toList_ofList, moves.scan, passes.scan,
      scanFrom_gap changed, scanFrom_gap skipped, List.map_append, List.map_append, items,
      scanFrom_unplaced]

/-- In front of the tokens that are left there is a gap, and the lexeme of the first one
follows it. -/
theorem Passes.exists_opening {back : List Char} {offset last : Nat} {tokens : List Token}
    (passes : Passes back nesting offset front (tokens.map .ok) last)
    (skipped : Gap (0 < last) [] back) :
    ∃ gap rest, front ++ back = gap ++ rest ∧ Gap (0 < nesting) rest gap ∧
      (Token.lineEnds tokens = true → ∀ next ∈ rest.head?, next = '\n') := by
  cases tokens with
  | nil =>
      cases passes
      exact ⟨back, [], by simp, skipped, by simp⟩
  | cons token tokens =>
      rw [List.map_cons] at passes
      cases passes with
      | @item _ _ _ gap more front character lexeme _ _ skipped found made rest =>
          refine ⟨gap, character :: (more ++ (front ++ back)), by simp, skipped, ?_⟩
          intro ends next begins
          obtain rfl : character = next := by simpa using begins
          cases lexeme with
          | blank => cases made
          | invalid cause => cases made
          | token kind =>
              cases made
              exact Lexeme.eq_newline_of_endsLine found ends

theorem Passes.last_eq_depth {back : List Char} {offset last : Nat}
    (passes : Passes back 0 offset front (before.map .ok) last) : last = Token.depth before := by
  rw [passes.last_eq, List.foldl_map]
  rfl

end LexicalItem

theorem Token.map_word_of_unplaced {first second : List Token}
    (same : first.map Token.unplaced = second.map Token.unplaced) :
    first.map Token.word = second.map Token.word := by
  have words := congrArg (List.map Token.word) same
  rw [List.map_map, List.map_map] at words
  exact words

theorem ReadsAs.of_unplaced {changed source : String} {tokens : List Token}
    (scanned : LexicalItem.scan source = tokens.map .ok)
    (same : (LexicalItem.scan changed).map LexicalItem.unplaced =
      (LexicalItem.scan source).map LexicalItem.unplaced) : ReadsAs changed source tokens := by
  have answers := Script.ofSource_unplaced same
  refine ⟨?_, fun script accepted => ?_, fun failure refused => ?_⟩
  · rw [scanned] at same
    obtain ⟨moved, found, tokens⟩ := LexicalItem.exists_tokens same
    exact ⟨moved, found, Token.map_word_of_unplaced tokens⟩
  · rw [accepted] at answers
    cases answer : Script.ofSource changed with
    | ok other =>
        rw [answer] at answers
        exact ⟨other, rfl, Except.ok.inj answers⟩
    | error failure =>
        rw [answer] at answers
        cases answers
  · rw [refused] at answers
    cases answer : Script.ofSource changed with
    | ok other =>
        rw [answer] at answers
        cases answers
    | error other =>
        rw [answer] at answers
        exact ⟨other, rfl, Except.error.inj answers⟩

section

variable {source : String} {front gap rest filler : List Char} {before tokens : List Token}
  {nesting : Nat}

/-- A gap can be made longer behind and in front. -/
theorem ReadsAs.of_gap (spelled : source.toList = front ++ (gap ++ rest))
    (scanned : LexicalItem.scan source = tokens.map .ok)
    (passes : LexicalItem.Passes (gap ++ rest) 0 0 front (before.map .ok) nesting)
    (skipped : Gap (0 < nesting) rest gap) (added : Gap (0 < nesting) rest filler) :
    ReadsAs (String.ofList (front ++ (gap ++ (filler ++ rest)))) source tokens ∧
      ReadsAs (String.ofList (front ++ (filler ++ (gap ++ rest)))) source tokens := by
  have whole : String.ofList (front ++ (gap ++ rest)) = source := by
    rw [← spelled, String.ofList_toList]
  constructor
  · have same := LexicalItem.scan_regap passes skipped (skipped.append added)
      fun nothing => (List.append_eq_nil_iff.mp nothing).1
    rw [whole, List.append_assoc] at same
    exact .of_unplaced scanned same
  · have same := LexicalItem.scan_regap passes skipped (added.append skipped)
      fun nothing => (List.append_eq_nil_iff.mp nothing).2
    rw [whole, List.append_assoc] at same
    exact .of_unplaced scanned same

end

/-- The token stands in the source behind `front`, and whatever can be added directly in
front of it or directly behind it changes nothing but places. -/
structure Token.FreelyLaid (source : String) (before : List Token) (token : Token)
    (behind : List Token) (front back : List Char) : Prop where
  stands : token.StandsAt source before front back
  ahead : ∀ filler,
    Filler (0 < Token.depth before) (Token.lineEnds (token :: behind)) filler →
      ReadsAs (String.ofList (front ++ (filler ++ (token.lexeme.toList ++ back)))) source
        (before ++ token :: behind)
  after : ∀ filler,
    Filler (0 < Token.depth (before ++ [token])) (Token.lineEnds behind) filler →
      ReadsAs (String.ofList (front ++ (token.lexeme.toList ++ (filler ++ back)))) source
        (before ++ token :: behind)

namespace LexicalItem.Passes

variable {source : String} {tail chars passed : List Char} {before inner : List Token} {last : Nat}

/-- The end of the source is freely laid. -/
private theorem freelyLaid_end (spelled : source.toList = chars ++ tail)
    (passes : Passes tail 0 0 chars (before.map .ok) last) (skipped : Gap (0 < last) [] tail)
    {ends : Token} (same : ends = ⟨.endOfSource, "",
      Span.between (utf8Length source.toList) (utf8Length source.toList)⟩)
    (scanned : LexicalItem.scan source = (before ++ [ends]).map .ok) :
    ends.FreelyLaid source before [] (chars ++ tail) [] := by
  have depth := passes.last_eq_depth
  subst same depth
  have spelledEnd : source.toList = chars ++ (tail ++ []) := by rw [spelled, List.append_nil]
  have passesEnd : Passes (tail ++ []) 0 0 chars (before.map .ok) (Token.depth before) := by
    rwa [List.append_nil]
  have free (filler : List Char) (added : Gap (0 < Token.depth before) [] filler) :=
    (ReadsAs.of_gap spelledEnd scanned passesEnd skipped added).1
  refine ⟨⟨spelledEnd.trans (by simp), ⟨_, chars, tail, rfl, passesEnd, skipped⟩, ?_⟩,
    fun filler filled => ?_, fun filler filled => ?_⟩
  · rw [spelled]
    simp
  · simpa using free filler (filled.gap (by simp))
  · have added : Gap (0 < Token.depth (before ++ [⟨.endOfSource, "", _⟩])) [] filler :=
      filled.gap (by simp)
    rw [Token.depth, Token.depthFrom_append] at added
    simpa using free filler added

end LexicalItem.Passes

/-- The lexer has passed the tokens before this one and a gap, and recognises its lexeme. -/
structure Token.FoundIn (source : String) (before : List Token) (token : Token)
    (passed gap : List Char) (character : Char) (word rest : List Char) : Prop where
  spelled : source.toList = passed ++ (gap ++ (character :: (word ++ rest)))
  early : LexicalItem.Passes (gap ++ (character :: (word ++ rest))) 0 0 passed (before.map .ok)
    (Token.depth before)
  opening : Gap (0 < Token.depth before) (character :: (word ++ rest)) gap
  recognised : Lexeme.first (0 < Token.depth before) character (word ++ rest) =
    (.token token.kind, word.length)
  made : token = ⟨token.kind, String.ofList (character :: word),
    Span.between (0 + utf8Length passed + utf8Length gap)
      (0 + utf8Length passed + utf8Length gap + utf8Length (character :: word))⟩

namespace Token.FoundIn

variable {source : String} {before tokens : List Token} {token : Token}
  {passed gap word rest : List Char} {character : Char}

theorem toList_lexeme (found : token.FoundIn source before passed gap character word rest) :
    token.lexeme.toList = character :: word := by
  rw [found.made, String.toList_ofList]

theorem stands (found : token.FoundIn source before passed gap character word rest) :
    token.StandsAt source before (passed ++ gap) rest := by
  refine ⟨?_, ⟨Token.depth before, passed, gap, rfl, ?_, ?_⟩, ?_⟩
  · rw [found.toList_lexeme, List.append_assoc]
    exact found.spelled
  · rw [found.toList_lexeme]
    exact found.early
  · rw [found.toList_lexeme]
    exact found.opening
  · rw [found.toList_lexeme, utf8Length_append, utf8Length_append, found.made, Nat.zero_add,
      utf8Length_append]

/-- Behind the token the lexer has passed it as well. -/
theorem passes (found : token.FoundIn source before passed gap character word rest) :
    LexicalItem.Passes rest 0 0 (passed ++ (gap ++ (character :: (word ++ []))))
      ((before ++ [token]).map .ok) (Token.depth (before ++ [token])) := by
  have taken : LexicalItem.Passes rest (Token.depth before) (0 + utf8Length passed)
      (gap ++ (character :: (word ++ []))) [.ok token]
      (Lexeme.nestingAfter (Token.depth before) token.kind) :=
    .item found.opening found.recognised
      (congrArg (fun made => (some (.ok made) : Option LexicalItem)) found.made.symm) .nothing
  have whole := LexicalItem.Passes.append (by simpa using found.early) taken
  rw [List.map_append, Token.depth, Token.depthFrom_append]
  exact whole

theorem ahead (found : token.FoundIn source before passed gap character word rest)
    (scanned : LexicalItem.scan source = tokens.map .ok) {filler : List Char}
    (filled : Filler (0 < Token.depth before) token.kind.endsLine filler) :
    ReadsAs (String.ofList (passed ++ gap ++ (filler ++ (token.lexeme.toList ++ rest)))) source
      tokens := by
  have newline (ends : token.kind.endsLine = true) :
      ∀ next ∈ (character :: (word ++ rest)).head?, next = '\n' := by
    intro next head
    obtain rfl : character = next := by simpa using head
    exact Lexeme.eq_newline_of_endsLine found.recognised ends
  rw [found.toList_lexeme, List.append_assoc]
  exact (ReadsAs.of_gap found.spelled scanned found.early found.opening (filled.gap newline)).1

theorem after {next others : List Char}
    (found : token.FoundIn source before passed gap character word (next ++ others))
    (scanned : LexicalItem.scan source = tokens.map .ok)
    (skipped : Gap (0 < Token.depth (before ++ [token])) others next) {filler : List Char}
    (added : Gap (0 < Token.depth (before ++ [token])) others filler) :
    ReadsAs (String.ofList (passed ++ gap ++ (token.lexeme.toList ++ (filler ++ (next ++ others)))))
      source tokens := by
  have spelled : source.toList =
      passed ++ (gap ++ (character :: (word ++ []))) ++ (next ++ others) := by
    rw [found.spelled]
    simp
  have free := (ReadsAs.of_gap spelled scanned found.passes skipped added).2
  rw [found.toList_lexeme]
  simpa using free

end Token.FoundIn

/-- A passage finds each of its tokens, and a gap behind it. -/
theorem LexicalItem.Passes.exists_foundIn {source : String} {chars tail : List Char}
    {before inner : List Token} {token : Token} {last : Nat}
    (spelled : source.toList = chars ++ tail)
    (passes : Passes tail 0 0 chars (before.map .ok ++ .ok token :: inner.map .ok) last)
    (skipped : Gap (0 < last) [] tail) :
    ∃ passed gap character word next others,
      token.FoundIn source before passed gap character word (next ++ others) ∧
      Gap (0 < Token.depth (before ++ [token])) others next ∧
        (Token.lineEnds inner = true → ∀ first ∈ others.head?, first = '\n') := by
  obtain ⟨passed, more, mid, rfl, early, late⟩ := passes.split
  have depth := early.last_eq_depth
  subst depth
  cases late with
  | @item _ _ _ gap word front character lexeme _ _ opening recognised made rest =>
      cases lexeme with
      | blank => cases made
      | invalid cause => cases made
      | token kind =>
          cases made
          obtain ⟨next, others, same, behind, newline⟩ := rest.exists_opening skipped
          refine ⟨passed, gap, character, word, next, others, ?_, ?_, newline⟩
          · rw [← same]
            exact ⟨by simpa using spelled, by simpa using early, opening, recognised, rfl⟩
          · rw [Token.depth, Token.depthFrom_append]
            exact behind

/-- Blanks and comments can be added in front of every token of a source without lexical
errors, and behind it. -/
theorem Script.layout_free {source : String} {before behind : List Token} {token : Token}
    (scanned : LexicalItem.scan source = (before ++ token :: behind).map .ok) :
    ∃ front back, token.FreelyLaid source before behind front back := by
  obtain ⟨chars, tail, items, last, spelled, passes, skipped, found⟩ :=
    LexicalItem.exists_passes_scan source
  have row := scanned.symm.trans found
  rcases List.eq_nil_or_concat behind with rfl | ⟨inner, ends, rfl⟩
  · rw [List.map_append] at row
    obtain ⟨rfl, same⟩ := List.append_inj' row rfl
    exact ⟨_, _, passes.freelyLaid_end spelled skipped
      (Except.ok.inj (List.cons.inj same).1) scanned⟩
  · rw [List.concat_eq_append] at scanned row ⊢
    have parts : ((before ++ token :: (inner ++ [ends])).map .ok : List LexicalItem) =
        (before.map .ok ++ (.ok token :: inner.map .ok)) ++ [.ok ends] := by simp
    obtain ⟨rfl, same⟩ := List.append_inj' (parts.symm.trans row) rfl
    obtain rfl : ends = _ := Except.ok.inj (List.cons.inj same).1
    obtain ⟨passed, gap, character, word, next, others, found, behind, newline⟩ :=
      passes.exists_foundIn spelled skipped
    refine ⟨_, _, found.stands, fun filler filled => found.ahead scanned filled,
      fun filler filled => found.after scanned behind (filled.gap fun lineEnds => newline ?_)⟩
    cases inner with
    | nil => rfl
    | cons first inner => exact lineEnds

/-- A comment and a tab in front of a number in parentheses, and a comment behind it. -/
theorem Script.layout_free_parentheses :
    ∃ (before : List Token) (token : Token) (behind : List Token) (front back : List Char),
      LexicalItem.scan "(1\n)" = (before ++ token :: behind).map .ok ∧
      token.StandsAt "(1\n)" before front back ∧
      ReadsAs (String.ofList (front ++ ('#' :: (['c'] ++ ['\n', '\t']) ++
        (token.lexeme.toList ++ back)))) "(1\n)" (before ++ token :: behind) ∧
      ReadsAs (String.ofList (front ++ (token.lexeme.toList ++
        ('#' :: (['d'] ++ ['\n']) ++ back)))) "(1\n)" (before ++ token :: behind) := by
  have scanned : LexicalItem.scan "(1\n)" =
      ([⟨.leftParenthesis, "(", Span.between 0 1⟩] ++ ⟨.number, "1", Span.between 1 2⟩ ::
        [⟨.rightParenthesis, ")", Span.between 3 4⟩,
          ⟨.endOfSource, "", Span.between 4 4⟩] : List Token).map .ok := by
    decide +kernel
  obtain ⟨front, back, free⟩ := Script.layout_free scanned
  exact ⟨_, _, _, front, back, scanned, free.stands,
    free.ahead _ (.comment (by simp) rfl (.blank rfl (by decide) .nothing)),
    free.after _ (.comment (by simp) rfl .nothing)⟩

end ScriptEngine
