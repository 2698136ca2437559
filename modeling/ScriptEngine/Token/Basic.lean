import ScriptEngine.Source.Span

/-!
# Tokens

The kinds of tokens that a source text is made of, the words that are keywords,
and the ways in which a text can fail to be made of tokens.
-/

set_option autoImplicit false

namespace ScriptEngine

/-- The kinds of tokens. Every keyword is a kind of its own. -/
inductive TokenKind where
  | leftParenthesis
  | rightParenthesis
  | leftBracket
  | rightBracket
  | leftBrace
  | rightBrace
  | comma
  | dot
  | colon
  | semicolon
  | newline
  | minus
  | plus
  | star
  | slash
  | percent
  | equal
  | plusEqual
  | minusEqual
  | equalEqual
  | bangEqual
  | lessThan
  | lessThanEqual
  | greaterThan
  | greaterThanEqual
  | number
  | text
  | identifier
  | andWord
  | breakWord
  | continueWord
  | defWord
  | delWord
  | elseWord
  | elsifWord
  | endWord
  | falseWord
  | forWord
  | ifWord
  | inWord
  | noneWord
  | notWord
  | orWord
  | passWord
  | printWord
  | recordWord
  | returnWord
  | trueWord
  | whileWord
  | endOfSource
deriving DecidableEq, Repr

namespace TokenKind

def label : TokenKind → String
  | leftParenthesis => "LEFT_PAREN"
  | rightParenthesis => "RIGHT_PAREN"
  | leftBracket => "LEFT_BRACKET"
  | rightBracket => "RIGHT_BRACKET"
  | leftBrace => "LEFT_BRACE"
  | rightBrace => "RIGHT_BRACE"
  | comma => "COMMA"
  | dot => "DOT"
  | colon => "COLON"
  | semicolon => "SEMICOLON"
  | newline => "NEWLINE"
  | minus => "MINUS"
  | plus => "PLUS"
  | star => "STAR"
  | slash => "SLASH"
  | percent => "PERCENT"
  | equal => "EQUAL"
  | plusEqual => "PLUS_EQUAL"
  | minusEqual => "MINUS_EQUAL"
  | equalEqual => "EQUAL_EQUAL"
  | bangEqual => "BANG_EQUAL"
  | lessThan => "LESS"
  | lessThanEqual => "LESS_EQUAL"
  | greaterThan => "GREATER"
  | greaterThanEqual => "GREATER_EQUAL"
  | number => "NUMBER"
  | text => "STRING"
  | identifier => "IDENTIFIER"
  | andWord => "AND"
  | breakWord => "BREAK"
  | continueWord => "CONTINUE"
  | defWord => "DEF"
  | delWord => "DEL"
  | elseWord => "ELSE"
  | elsifWord => "ELSIF"
  | endWord => "END"
  | falseWord => "FALSE"
  | forWord => "FOR"
  | ifWord => "IF"
  | inWord => "IN"
  | noneWord => "NONE"
  | notWord => "NOT"
  | orWord => "OR"
  | passWord => "PASS"
  | printWord => "PRINT"
  | recordWord => "RECORD"
  | returnWord => "RETURN"
  | trueWord => "TRUE"
  | whileWord => "WHILE"
  | endOfSource => "EOF"

def debugName : TokenKind → String
  | leftParenthesis => "LeftParenthesis"
  | rightParenthesis => "RightParenthesis"
  | leftBracket => "LeftBracket"
  | rightBracket => "RightBracket"
  | leftBrace => "LeftBrace"
  | rightBrace => "RightBrace"
  | comma => "Comma"
  | dot => "Dot"
  | colon => "Colon"
  | semicolon => "Semicolon"
  | newline => "Newline"
  | minus => "Minus"
  | plus => "Plus"
  | star => "Star"
  | slash => "Slash"
  | percent => "Percent"
  | equal => "Equal"
  | plusEqual => "PlusEqual"
  | minusEqual => "MinusEqual"
  | equalEqual => "EqualEqual"
  | bangEqual => "BangEqual"
  | lessThan => "LessThan"
  | lessThanEqual => "LessThanEqual"
  | greaterThan => "GreaterThan"
  | greaterThanEqual => "GreaterThanEqual"
  | number => "NumericLiteral"
  | text => "StringLiteral"
  | identifier => "Ident"
  | andWord => "KeywordAnd"
  | breakWord => "KeywordBreak"
  | continueWord => "KeywordContinue"
  | defWord => "KeywordDef"
  | delWord => "KeywordDel"
  | elseWord => "KeywordElse"
  | elsifWord => "KeywordElsif"
  | endWord => "KeywordEnd"
  | falseWord => "KeywordFalse"
  | forWord => "KeywordFor"
  | ifWord => "KeywordIf"
  | inWord => "KeywordIn"
  | noneWord => "KeywordNone"
  | notWord => "KeywordNot"
  | orWord => "KeywordOr"
  | passWord => "KeywordPass"
  | printWord => "KeywordPrint"
  | recordWord => "KeywordRecord"
  | returnWord => "KeywordReturn"
  | trueWord => "KeywordTrue"
  | whileWord => "KeywordWhile"
  | endOfSource => "Eof"

/-- The words that are not identifiers, with their kinds. -/
def keywords : List (String × TokenKind) :=
  [("and", andWord), ("break", breakWord), ("continue", continueWord), ("def", defWord),
    ("del", delWord), ("else", elseWord), ("elsif", elsifWord), ("end", endWord),
    ("False", falseWord), ("for", forWord), ("if", ifWord), ("in", inWord),
    ("None", noneWord), ("not", notWord), ("or", orWord), ("pass", passWord),
    ("print", printWord), ("record", recordWord), ("return", returnWord),
    ("True", trueWord), ("while", whileWord)]

/-- The kind of a word: a keyword's own kind, or an identifier. -/
def ofWord (word : String) : TokenKind :=
  (keywords.lookup word).getD identifier

end TokenKind

/-- A token with the characters it is made of and the place where they stand. -/
structure Token where
  kind : TokenKind
  lexeme : String
  span : Span
deriving DecidableEq, Repr

/-- Why a stretch of source is no token. -/
inductive LexicalCause where
  | unrecognized (character : Char)
  | unclosedText
deriving DecidableEq, Repr

/-- A cause with the stretch of source that is no token. -/
structure LexicalError where
  cause : LexicalCause
  span : Span
deriving DecidableEq, Repr

namespace LexicalCause

def message : LexicalCause → String
  | unrecognized character => "Unrecognized character " ++ character.toString
  | unclosedText => "Unterminated string literal"

end LexicalCause

end ScriptEngine
