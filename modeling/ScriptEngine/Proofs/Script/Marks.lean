import Mathlib.Data.List.Forall2
import ScriptEngine.Proofs.Grammar.Printing

/-!
# What a traversal of a script meets

A traversal in order goes through the statements of a script as they follow each other,
through their expressions and through their bodies, and lists names, literals, operators
and keywords on its way. It accounts for a row of tokens when it lists exactly those that
are no punctuation, in the same order.
-/

set_option autoImplicit false

namespace ScriptEngine

/-- Whether a token of this kind has to show up in a script. The others only hold a source
together. -/
def TokenKind.isListed : TokenKind → Bool
  | .leftParenthesis | .rightParenthesis | .leftBracket | .rightBracket | .comma | .dot | .colon
  | .endWord | .newline | .semicolon | .endOfSource => false
  | _ => true

/-- What a traversal lists: names, literals, operators and keywords. A `break` is listed
with the source that it covers, which shows whether its count was written. -/
inductive Mark where
  | name (name : String)
  | literal (value : Value)
  | symbol (kind : TokenKind)
  | breakLoops (count : Nat) (span : Span)

/-!
## Traversals
-/

mutual

def ExpressionTree.marks : ExpressionTree → List Mark
  | .constant value _ => [.literal value]
  | .name identifier _ => [.name identifier]
  | .unary operator operand _ => .symbol operator.word.kind :: operand.marks
  | .binary operator left right _ =>
      left.marks ++ .symbol (MiddleOperator.binary operator).word.kind :: right.marks
  | .shortCircuit operator left right _ =>
      left.marks ++ .symbol (MiddleOperator.logical operator).word.kind :: right.marks
  | .member object identifier _ _ => object.marks ++ [.name identifier]
  | .element object index _ => object.marks ++ index.marks
  | .array elements _ => ExpressionTree.allMarks elements
  | .call callee arguments _ => callee.marks ++ ExpressionTree.allMarks arguments

def ExpressionTree.allMarks : List ExpressionTree → List Mark
  | [] => []
  | tree :: trees => tree.marks ++ ExpressionTree.allMarks trees

end

mutual

def StatementTree.marks : StatementTree → List Mark
  | .expression expression => expression.marks
  | .print values => .symbol .printWord :: ExpressionTree.allMarks values
  | .assignName name operator value _ =>
      .name name :: .symbol operator.word.kind :: value.marks
  | .assignMember object name operator value _ =>
      object.marks ++ .name name :: .symbol operator.word.kind :: value.marks
  | .assignElement object index operator value _ =>
      object.marks ++ index.marks ++ .symbol operator.word.kind :: value.marks
  | .branch branches => branches.marks .ifWord
  | .whileLoop condition body => .symbol .whileWord :: condition.marks ++ blockMarks body
  | .forLoop item iterable body _ =>
      .symbol .forWord :: .name item :: .symbol .inWord :: iterable.marks ++ blockMarks body
  | .breakLoops count span => [.breakLoops count span]
  | .continueLoop _ => [.symbol .continueWord]
  | .returnValue none => [.symbol .returnWord]
  | .returnValue (some value) => .symbol .returnWord :: value.marks
  | .pass => [.symbol .passWord]
  | .delete name _ => [.symbol .delWord, .name name]
  | .define name parameters _ body =>
      .symbol .defWord :: .name name :: parameters.map Mark.name ++ blockMarks body
  | .record name body _ => .symbol .recordWord :: .name name :: blockMarks body

/-- The branches that are left, the first of which begins with the given keyword. -/
def BranchTree.marks (keyword : TokenKind) : BranchTree → List Mark
  | .missing => []
  | .otherwise body => .symbol .elseWord :: blockMarks body
  | .test condition body rest =>
      .symbol keyword :: condition.marks ++ blockMarks body ++ rest.marks .elsifWord

def blockMarks : List StatementTree → List Mark
  | [] => []
  | tree :: rest => tree.marks ++ blockMarks rest

end

/-!
## Tokens
-/

namespace Mark

/-- The tokens that a mark stands for. -/
inductive StandsFor : Mark → List Token → Prop where
  | name {token : Token} (kind : token.kind = .identifier) : StandsFor (.name token.lexeme) [token]
  | number {token : Token} (kind : token.kind = .number) :
      StandsFor (.literal (.number token.number)) [token]
  | text {token : Token} (kind : token.kind = .text) :
      StandsFor (.literal (.text token.text)) [token]
  | trueWord {token : Token} (kind : token.kind = .trueWord) :
      StandsFor (.literal (.bool true)) [token]
  | falseWord {token : Token} (kind : token.kind = .falseWord) :
      StandsFor (.literal (.bool false)) [token]
  | noneWord {token : Token} (kind : token.kind = .noneWord) : StandsFor (.literal .none) [token]
  | symbol {token : Token} (listed : token.kind.isListed = true) :
      StandsFor (.symbol token.kind) [token]
  | breakLoop {token : Token} (kind : token.kind = .breakWord) :
      StandsFor (.breakLoops 1 token.span) [token]
  | breakLoops {token number : Token} {count : Nat} (kind : token.kind = .breakWord)
      (numberKind : number.kind = .number) (counts : number.count? = some count) :
      StandsFor (.breakLoops count (token.span.merge number.span)) [token, number]

/-- The marks are the listed ones of the tokens, in the same order. -/
def AccountFor (marks : List Mark) (tokens : List Token) : Prop :=
  ∃ groups, List.Forall₂ StandsFor marks groups ∧
    groups.flatten = tokens.filter fun token => token.kind.isListed

theorem StandsFor.listed {mark : Mark} {tokens : List Token} (stands : mark.StandsFor tokens) :
    ∀ token ∈ tokens, token.kind.isListed = true := by
  cases stands with
  | symbol listed => simpa using listed
  | breakLoops kind numberKind =>
      simp only [List.forall_mem_cons, kind, numberKind]
      exact ⟨rfl, rfl, List.forall_mem_nil _⟩
  | name kind | number kind | text kind | trueWord kind | falseWord kind | noneWord kind
  | breakLoop kind =>
      simp only [List.forall_mem_singleton, kind]
      rfl

namespace AccountFor

theorem nothing {tokens : List Token} (unlisted : ∀ token ∈ tokens, token.kind.isListed = false) :
    AccountFor [] tokens :=
  ⟨[], .nil, (List.filter_eq_nil_iff.mpr fun token member => by simp [unlisted token member]).symm⟩

theorem single {mark : Mark} {tokens : List Token} (stands : mark.StandsFor tokens) :
    AccountFor [mark] tokens :=
  ⟨[tokens], .cons stands .nil, by simpa using (List.filter_eq_self.mpr stands.listed).symm⟩

theorem append {marks others : List Mark} {tokens more : List Token}
    (first : AccountFor marks tokens) (second : AccountFor others more) :
    AccountFor (marks ++ others) (tokens ++ more) := by
  obtain ⟨groups, stand, same⟩ := first
  obtain ⟨rest, restStand, restSame⟩ := second
  exact ⟨groups ++ rest, List.rel_append stand restStand, by simp [same, restSame]⟩

end AccountFor

end Mark

end ScriptEngine
