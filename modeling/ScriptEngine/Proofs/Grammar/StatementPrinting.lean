import ScriptEngine.Proofs.Grammar.Printing

/-!
# Printed statements

A statement without places, and the rows of words that it is printed as. Every
conditional has blocks of several lines and is closed by `end`. Any other block has
several lines up to its own `end`, or is a colon with one simple statement. Between
two statements there are newlines and semicolons in any order, and a block of several
lines begins with a newline. `PhrasePrinted` is every such row of words, and
`StatementTerm.allWords` is the one with a line for each statement.
-/

set_option autoImplicit false

namespace ScriptEngine

/-- What an assignment writes to, without places. -/
inductive TargetTerm where
  | name (name : String)
  | member (object : Term) (name : String)
  | element (object index : Term)

mutual

inductive StatementTerm where
  | expression (value : Term)
  | print (values : List Term)
  | assign (target : TargetTerm) (operator : AssignOperator) (value : Term)
  | branch (branches : BranchTerm)
  | whileLoop (condition : Term) (body : List StatementTerm)
  | forLoop (item : String) (iterable : Term) (body : List StatementTerm)
  | breakLoops (count : Nat)
  | continueLoop
  | returnValue (value : Option Term)
  | pass
  | delete (name : String)
  | define (name : String) (parameters : List String) (body : List StatementTerm)
  | record (name : String) (body : List StatementTerm)

inductive BranchTerm where
  | missing
  | otherwise (body : List StatementTerm)
  | test (condition : Term) (body : List StatementTerm) (rest : BranchTerm)

end

mutual

/-- The statement without its places, and without where the body of a function begins
in the arena. -/
def StatementTree.term : StatementTree → StatementTerm
  | .expression value => .expression value.term
  | .print values => .print (ExpressionTree.terms values)
  | .assignName identifier operator value _ => .assign (.name identifier) operator value.term
  | .assignMember object identifier operator value _ =>
      .assign (.member object.term identifier) operator value.term
  | .assignElement object index operator value _ =>
      .assign (.element object.term index.term) operator value.term
  | .branch branches => .branch branches.term
  | .whileLoop condition body => .whileLoop condition.term (StatementTree.terms body)
  | .forLoop item iterable body _ => .forLoop item iterable.term (StatementTree.terms body)
  | .breakLoops count _ => .breakLoops count
  | .continueLoop _ => .continueLoop
  | .returnValue value => .returnValue (value.map ExpressionTree.term)
  | .pass => .pass
  | .delete identifier _ => .delete identifier
  | .define identifier parameters _ body => .define identifier parameters (StatementTree.terms body)
  | .record identifier body _ => .record identifier (StatementTree.terms body)

def BranchTree.term : BranchTree → BranchTerm
  | .missing => .missing
  | .otherwise body => .otherwise (StatementTree.terms body)
  | .test condition body rest => .test condition.term (StatementTree.terms body) rest.term

def StatementTree.terms : List StatementTree → List StatementTerm
  | [] => []
  | tree :: trees => tree.term :: StatementTree.terms trees

end

/-!
## Words
-/

namespace Word

def newline : Word := ⟨.newline, "\n"⟩

def semicolon : Word := ⟨.semicolon, ";"⟩

def colon : Word := ⟨.colon, ":"⟩

def ifWord : Word := ⟨.ifWord, "if"⟩

def elsifWord : Word := ⟨.elsifWord, "elsif"⟩

def elseWord : Word := ⟨.elseWord, "else"⟩

def endWord : Word := ⟨.endWord, "end"⟩

def whileWord : Word := ⟨.whileWord, "while"⟩

def forWord : Word := ⟨.forWord, "for"⟩

def inWord : Word := ⟨.inWord, "in"⟩

def defWord : Word := ⟨.defWord, "def"⟩

def recordWord : Word := ⟨.recordWord, "record"⟩

def printWord : Word := ⟨.printWord, "print"⟩

def breakWord : Word := ⟨.breakWord, "break"⟩

def continueWord : Word := ⟨.continueWord, "continue"⟩

def returnWord : Word := ⟨.returnWord, "return"⟩

def passWord : Word := ⟨.passWord, "pass"⟩

def delWord : Word := ⟨.delWord, "del"⟩

/-- The words that end a statement. -/
def separators : List Word := [newline, semicolon]

def names (identifiers : List String) : List Word :=
  separated (identifiers.map fun identifier => [name identifier])

end Word

/-!
## Printing
-/

/-- The words are a target that is not in parentheses. -/
inductive TargetPrinted : TargetTerm → List Word → Prop where
  | name {identifier : String} :
      isIdentifier identifier = true → TargetPrinted (.name identifier) [.name identifier]
  | member {object : Term} {identifier : String} {words : List Word} :
      Printed suffixLevel object words → isIdentifier identifier = true →
      TargetPrinted (.member object identifier) (words ++ [Word.dot, .name identifier])
  | element {object index : Term} {words indexWords : List Word} :
      Printed suffixLevel object words → Printed 0 index indexWords →
      TargetPrinted (.element object index)
        (words ++ Word.leftBracket :: indexWords ++ [Word.rightBracket])

theorem TargetPrinted.begins {target : TargetTerm} {words : List Word}
    (printed : TargetPrinted target words) : Word.BeginWith TokenKind.beginsOperand words := by
  cases printed with
  | name => exact ⟨_, _, rfl, rfl⟩
  | member object isName => exact object.begins.append _
  | element object index =>
      rw [List.append_assoc]
      exact object.begins.append _

/-- The words spell a statement without blocks. -/
inductive SimplePrinted : StatementTerm → List Word → Prop where
  | expression {value : Term} {words : List Word} :
      Printed 0 value words → SimplePrinted (.expression value) words
  | print {values : List (Term × List Word)} :
      (∀ value ∈ values, Printed 0 value.1 value.2) →
      SimplePrinted (.print (values.map Prod.fst))
        (Word.printWord :: Word.separated (values.map Prod.snd))
  | assign {target : TargetTerm} {operator : AssignOperator} {value : Term}
      {targetWords words : List Word} :
      TargetPrinted target targetWords → Printed 0 value words →
      SimplePrinted (.assign target operator value) (targetWords ++ operator.word :: words)
  | breakLoop : SimplePrinted (.breakLoops 1) [Word.breakWord]
  | breakLoops {digits : List Char} :
      digits ≠ [] → digits.all Char.isDigit = true → DecimalText.digitsValue digits < UInt64.size →
      SimplePrinted (.breakLoops (DecimalText.digitsValue digits))
        [Word.breakWord, .number digits]
  | continueLoop : SimplePrinted .continueLoop [Word.continueWord]
  | returnNothing : SimplePrinted (.returnValue none) [Word.returnWord]
  | returnValue {value : Term} {words : List Word} :
      Printed 0 value words → SimplePrinted (.returnValue (some value)) (Word.returnWord :: words)
  | pass : SimplePrinted .pass [Word.passWord]
  | delete {identifier : String} :
      isIdentifier identifier = true →
      SimplePrinted (.delete identifier) [Word.delWord, .name identifier]

/-- The kinds of tokens that a statement without blocks can begin with. -/
def TokenKind.beginsSimple : TokenKind → Bool
  | .printWord | .passWord | .continueWord | .breakWord | .returnWord | .delWord => true
  | kind => kind.beginsOperand

theorem TokenKind.beginsSimple_of_operand {kind : TokenKind} (begins : kind.beginsOperand = true) :
    kind.beginsSimple = true := by
  cases kind <;> first | rfl | cases begins

theorem SimplePrinted.begins {statement : StatementTerm} {words : List Word}
    (printed : SimplePrinted statement words) : Word.BeginWith TokenKind.beginsSimple words := by
  cases printed with
  | expression printed => exact printed.begins.mono fun _ => TokenKind.beginsSimple_of_operand
  | assign target _ =>
      exact (target.begins.mono fun _ => TokenKind.beginsSimple_of_operand).append _
  | _ => exact ⟨_, _, rfl, rfl⟩

/-- What is printed as a row of words: a statement, the block of a compound that has
only one, what stands behind the first block of a conditional, or the statements of
a sequence. The last statement of a whole source needs nothing behind it. -/
inductive Phrase where
  | statement (statement : StatementTerm)
  | block (body : List StatementTerm)
  | branches (rest : BranchTerm)
  | sequence (whole : Bool) (statements : List StatementTerm)

inductive PhrasePrinted : Phrase → List Word → Prop where
  | simple {statement : StatementTerm} {words : List Word} :
      SimplePrinted statement words → PhrasePrinted (.statement statement) words
  | branch {condition : Term} {body : List StatementTerm} {rest : BranchTerm}
      {conditionWords lines more : List Word} :
      Printed 0 condition conditionWords → PhrasePrinted (.sequence false body) lines →
      PhrasePrinted (.branches rest) more →
      PhrasePrinted (.statement (.branch (.test condition body rest)))
        (Word.ifWord :: conditionWords ++ Word.newline :: lines ++ more)
  | whileLoop {condition : Term} {body : List StatementTerm} {conditionWords words : List Word} :
      Printed 0 condition conditionWords → PhrasePrinted (.block body) words →
      PhrasePrinted (.statement (.whileLoop condition body))
        (Word.whileWord :: conditionWords ++ words)
  | forLoop {item : String} {iterable : Term} {body : List StatementTerm}
      {iterableWords words : List Word} :
      isIdentifier item = true → Printed 0 iterable iterableWords →
      PhrasePrinted (.block body) words →
      PhrasePrinted (.statement (.forLoop item iterable body))
        (Word.forWord :: .name item :: Word.inWord :: iterableWords ++ words)
  | define {identifier : String} {parameters : List String} {body : List StatementTerm}
      {words : List Word} :
      isIdentifier identifier = true → (∀ name ∈ parameters, isIdentifier name = true) →
      PhrasePrinted (.block body) words →
      PhrasePrinted (.statement (.define identifier parameters body))
        (Word.defWord :: .name identifier :: Word.leftParenthesis :: Word.names parameters ++
          Word.rightParenthesis :: words)
  | record {identifier : String} {body : List StatementTerm} {words : List Word} :
      isIdentifier identifier = true → PhrasePrinted (.block body) words →
      PhrasePrinted (.statement (.record identifier body))
        (Word.recordWord :: .name identifier :: words)
  | line {statement : StatementTerm} {words : List Word} :
      SimplePrinted statement words → PhrasePrinted (.block [statement]) (Word.colon :: words)
  | lines {body : List StatementTerm} {words : List Word} :
      PhrasePrinted (.sequence false body) words →
      PhrasePrinted (.block body) (Word.newline :: words ++ [Word.endWord])
  | missing : PhrasePrinted (.branches .missing) [Word.endWord]
  | otherwise {body : List StatementTerm} {lines : List Word} :
      PhrasePrinted (.sequence false body) lines →
      PhrasePrinted (.branches (.otherwise body))
        (Word.elseWord :: Word.newline :: lines ++ [Word.endWord])
  | test {condition : Term} {body : List StatementTerm} {rest : BranchTerm}
      {conditionWords lines more : List Word} :
      Printed 0 condition conditionWords → PhrasePrinted (.sequence false body) lines →
      PhrasePrinted (.branches rest) more →
      PhrasePrinted (.branches (.test condition body rest))
        (Word.elsifWord :: conditionWords ++ Word.newline :: lines ++ more)
  | nothing {whole : Bool} {leading : List Word} :
      (∀ word ∈ leading, word ∈ Word.separators) → PhrasePrinted (.sequence whole []) leading
  | last {statement : StatementTerm} {leading words : List Word} :
      (∀ word ∈ leading, word ∈ Word.separators) → PhrasePrinted (.statement statement) words →
      PhrasePrinted (.sequence true [statement]) (leading ++ words)
  | followed {whole : Bool} {statement : StatementTerm} {rest : List StatementTerm}
      {leading words more : List Word} {separator : Word} :
      (∀ word ∈ leading, word ∈ Word.separators) → PhrasePrinted (.statement statement) words →
      separator ∈ Word.separators → PhrasePrinted (.sequence whole rest) more →
      PhrasePrinted (.sequence whole (statement :: rest)) (leading ++ words ++ separator :: more)

/-- The kinds of tokens that a statement can begin with. -/
def TokenKind.beginsStatement : TokenKind → Bool
  | .ifWord | .whileWord | .forWord | .defWord | .recordWord => true
  | kind => kind.beginsSimple

theorem TokenKind.beginsStatement_of_simple {kind : TokenKind}
    (begins : kind.beginsSimple = true) : kind.beginsStatement = true := by
  cases kind <;> first | rfl | cases begins

theorem PhrasePrinted.begins {statement : StatementTerm} {words : List Word}
    (printed : PhrasePrinted (.statement statement) words) :
    Word.BeginWith TokenKind.beginsStatement words := by
  cases printed with
  | simple printed => exact printed.begins.mono fun _ => TokenKind.beginsStatement_of_simple
  | _ => exact ⟨_, _, rfl, rfl⟩

/-- The kinds of tokens that the block of a compound can begin with. -/
def TokenKind.beginsBlock : TokenKind → Bool
  | .colon | .newline => true
  | _ => false

theorem PhrasePrinted.begins_block {body : List StatementTerm} {words : List Word}
    (printed : PhrasePrinted (.block body) words) :
    Word.BeginWith TokenKind.beginsBlock words := by
  cases printed with
  | line | lines => exact ⟨_, _, rfl, rfl⟩

/-- The kinds of tokens that can stand behind a block of a conditional. -/
def TokenKind.beginsBranch : TokenKind → Bool
  | .elsifWord | .elseWord | .endWord => true
  | _ => false

theorem PhrasePrinted.begins_branches {rest : BranchTerm} {words : List Word}
    (printed : PhrasePrinted (.branches rest) words) :
    Word.BeginWith TokenKind.beginsBranch words := by
  cases printed with
  | missing | otherwise | test => exact ⟨_, _, rfl, rfl⟩

/-!
## A line for each statement
-/

section

variable (numeral : Float → List Char)

def TargetTerm.words : TargetTerm → List Word
  | .name identifier => [.name identifier]
  | .member object identifier => object.words numeral suffixLevel ++ [Word.dot, .name identifier]
  | .element object index =>
      object.words numeral suffixLevel ++ Word.leftBracket :: index.words numeral 0 ++
        [Word.rightBracket]

mutual

/-- The words of a statement, with a line for each statement of its blocks. -/
def StatementTerm.words : StatementTerm → List Word
  | .expression value => value.words numeral 0
  | .print values => Word.printWord :: Word.separated (Term.allWords numeral values)
  | .assign target operator value =>
      target.words numeral ++ operator.word :: value.words numeral 0
  | .branch branches => branches.words Word.ifWord
  | .whileLoop condition body =>
      Word.whileWord :: condition.words numeral 0 ++
        (Word.newline :: StatementTerm.allWords body ++ [Word.endWord])
  | .forLoop item iterable body =>
      Word.forWord :: .name item :: Word.inWord :: iterable.words numeral 0 ++
        (Word.newline :: StatementTerm.allWords body ++ [Word.endWord])
  | .breakLoops count => [Word.breakWord, .number (Nat.toDigits 10 count)]
  | .continueLoop => [Word.continueWord]
  | .returnValue none => [Word.returnWord]
  | .returnValue (some value) => Word.returnWord :: value.words numeral 0
  | .pass => [Word.passWord]
  | .delete identifier => [Word.delWord, .name identifier]
  | .define identifier parameters body =>
      Word.defWord :: .name identifier :: Word.leftParenthesis :: Word.names parameters ++
        Word.rightParenthesis :: (Word.newline :: StatementTerm.allWords body ++ [Word.endWord])
  | .record identifier body =>
      Word.recordWord :: .name identifier ::
        (Word.newline :: StatementTerm.allWords body ++ [Word.endWord])

/-- The words of branches up to `end`, where `opening` stands in front of the first
condition. -/
def BranchTerm.words (opening : Word) : BranchTerm → List Word
  | .missing => [Word.endWord]
  | .otherwise body =>
      Word.elseWord :: Word.newline :: StatementTerm.allWords body ++ [Word.endWord]
  | .test condition body rest =>
      opening :: condition.words numeral 0 ++ Word.newline :: StatementTerm.allWords body ++
        rest.words Word.elsifWord

def StatementTerm.allWords : List StatementTerm → List Word
  | [] => []
  | statement :: rest => statement.words ++ Word.newline :: StatementTerm.allWords rest

end

def TargetTerm.Printable : TargetTerm → Prop
  | .name identifier => isIdentifier identifier = true
  | .member object identifier => object.Printable numeral ∧ isIdentifier identifier = true
  | .element object index => object.Printable numeral ∧ index.Printable numeral

mutual

/-- The statement is made of printable expressions and names. A conditional has a first
condition, and a count of loops is a machine word of 64 bits. -/
def StatementTerm.Printable : StatementTerm → Prop
  | .expression value => value.Printable numeral
  | .print values => Term.AllPrintable numeral values
  | .assign target _ value => target.Printable numeral ∧ value.Printable numeral
  | .branch .missing | .branch (.otherwise _) => False
  | .branch (.test condition body rest) =>
      condition.Printable numeral ∧ StatementTerm.AllPrintable body ∧ rest.Printable
  | .whileLoop condition body => condition.Printable numeral ∧ StatementTerm.AllPrintable body
  | .forLoop item iterable body =>
      isIdentifier item = true ∧ iterable.Printable numeral ∧ StatementTerm.AllPrintable body
  | .breakLoops count => count < UInt64.size
  | .continueLoop => True
  | .returnValue none => True
  | .returnValue (some value) => value.Printable numeral
  | .pass => True
  | .delete identifier => isIdentifier identifier = true
  | .define identifier parameters body =>
      isIdentifier identifier = true ∧ (∀ name ∈ parameters, isIdentifier name = true) ∧
        StatementTerm.AllPrintable body
  | .record identifier body => isIdentifier identifier = true ∧ StatementTerm.AllPrintable body

def BranchTerm.Printable : BranchTerm → Prop
  | .missing => True
  | .otherwise body => StatementTerm.AllPrintable body
  | .test condition body rest =>
      condition.Printable numeral ∧ StatementTerm.AllPrintable body ∧ rest.Printable

def StatementTerm.AllPrintable : List StatementTerm → Prop
  | [] => True
  | statement :: rest => statement.Printable ∧ StatementTerm.AllPrintable rest

end

end

variable {numeral : Float → List Char}

theorem TargetTerm.Printable.printed {target : TargetTerm}
    (printable : target.Printable numeral) : TargetPrinted target (target.words numeral) := by
  cases target with
  | name identifier => exact .name printable
  | member object identifier =>
      exact .member (printable.1.printed object suffixLevel) printable.2
  | element object index =>
      exact .element (printable.1.printed object suffixLevel) (printable.2.printed index 0)

private theorem simplePrinted_breakLoops {count : Nat} (small : count < UInt64.size) :
    SimplePrinted (.breakLoops count) [Word.breakWord, .number (Nat.toDigits 10 count)] := by
  have value : DecimalText.digitsValue (Nat.toDigits 10 count) = count := by
    have read := Nat.ofDigitChars_ten_toDigits (n := count)
    rwa [Nat.ofDigitChars_eq_foldl] at read
  have digits : (Nat.toDigits 10 count).all Char.isDigit = true :=
    List.all_eq_true.mpr fun _ member =>
      Nat.isDigit_of_mem_toDigits (by decide) (by decide) member
  have printed := SimplePrinted.breakLoops (Nat.toDigits_ne_nil) digits
    (by rwa [value])
  rwa [value] at printed

mutual

theorem StatementTerm.Printable.printed (statement : StatementTerm)
    (printable : statement.Printable numeral) :
    PhrasePrinted (.statement statement) (statement.words numeral) := by
  cases statement with
  | expression value => exact .simple (.expression (Term.Printable.printed value printable 0))
  | print values =>
      obtain ⟨rows, rfl, same, rowsPrinted⟩ := Term.AllPrintable.printed values printable
      rw [StatementTerm.words, ← same]
      exact .simple (.print rowsPrinted)
  | assign target operator value =>
      exact .simple (.assign printable.1.printed (printable.2.printed value 0))
  | branch branches =>
      cases branches with
      | missing => exact printable.elim
      | otherwise body => exact printable.elim
      | test condition body rest =>
          have conditionPrinted := printable.1.printed condition 0
          have bodyPrinted := StatementTerm.AllPrintable.printed body printable.2.1 false
          have restPrinted := BranchTerm.Printable.printed rest printable.2.2
          exact .branch conditionPrinted bodyPrinted restPrinted
  | whileLoop condition body =>
      have conditionPrinted := printable.1.printed condition 0
      have bodyPrinted := StatementTerm.AllPrintable.printed body printable.2 false
      exact .whileLoop conditionPrinted (.lines bodyPrinted)
  | forLoop item iterable body =>
      have iterablePrinted := printable.2.1.printed iterable 0
      have bodyPrinted := StatementTerm.AllPrintable.printed body printable.2.2 false
      exact .forLoop printable.1 iterablePrinted (.lines bodyPrinted)
  | breakLoops count => exact .simple (simplePrinted_breakLoops printable)
  | continueLoop => exact .simple .continueLoop
  | returnValue value =>
      cases value with
      | none => exact .simple .returnNothing
      | some value => exact .simple (.returnValue (Term.Printable.printed value printable 0))
  | pass => exact .simple .pass
  | delete identifier => exact .simple (.delete printable)
  | define identifier parameters body =>
      have bodyPrinted := StatementTerm.AllPrintable.printed body printable.2.2 false
      exact .define printable.1 printable.2.1 (.lines bodyPrinted)
  | record identifier body =>
      have bodyPrinted := StatementTerm.AllPrintable.printed body printable.2 false
      exact .record printable.1 (.lines bodyPrinted)

theorem BranchTerm.Printable.printed (rest : BranchTerm) (printable : rest.Printable numeral) :
    PhrasePrinted (.branches rest) (rest.words numeral Word.elsifWord) := by
  cases rest with
  | missing => exact .missing
  | otherwise body => exact .otherwise (StatementTerm.AllPrintable.printed body printable false)
  | test condition body rest =>
      have conditionPrinted := printable.1.printed condition 0
      have bodyPrinted := StatementTerm.AllPrintable.printed body printable.2.1 false
      have restPrinted := BranchTerm.Printable.printed rest printable.2.2
      exact .test conditionPrinted bodyPrinted restPrinted

theorem StatementTerm.AllPrintable.printed (block : List StatementTerm)
    (printable : StatementTerm.AllPrintable numeral block) (whole : Bool) :
    PhrasePrinted (.sequence whole block) (StatementTerm.allWords numeral block) := by
  cases block with
  | nil => exact .nothing (List.forall_mem_nil _)
  | cons statement rest =>
      have firstPrinted := StatementTerm.Printable.printed statement printable.1
      have restPrinted := StatementTerm.AllPrintable.printed rest printable.2 whole
      exact .followed (List.forall_mem_nil _) firstPrinted List.mem_cons_self restPrinted

end

end ScriptEngine
