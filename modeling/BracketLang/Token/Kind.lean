import BracketLang.Text.Distance

/-! The kinds of tokens. Reserved words and operators have one spelling each; integers,
identifiers and the end of file have a description instead. -/

namespace BracketLang

/-- What a token is. -/
inductive TokenKind where
  | eof
  | integer | trueWord | falseWord
  | identifier
  | funcWord | letWord
  | ifWord | elseWord | whileWord | returnWord | printWord
  | i32Word | boolWord
  | plus | minus | star | slash
  | assign
  | equal | notEqual | less | greater | lessEqual | greaterEqual
  | and | or | not
  | leftParen | rightParen | leftBracket | rightBracket
  | semicolon | comma | colon | arrow
deriving DecidableEq, Repr, Inhabited

namespace TokenKind

/-- Every kind, in the order in which they are numbered from one. -/
def all : List TokenKind :=
  [eof, integer, trueWord, falseWord, identifier, funcWord, letWord, ifWord, elseWord, whileWord,
    returnWord, printWord, i32Word, boolWord, plus, minus, star, slash, assign, equal, notEqual,
    less, greater, lessEqual, greaterEqual, and, or, not, leftParen, rightParen, leftBracket,
    rightBracket, semicolon, comma, colon, arrow]

/-- The name under which a kind appears in listings and logs. -/
def name : TokenKind → String
  | eof => "EOF"
  | integer => "INTEGER"
  | trueWord => "TRUE"
  | falseWord => "FALSE"
  | identifier => "IDENTIFIER"
  | funcWord => "FUNC"
  | letWord => "LET"
  | ifWord => "IF"
  | elseWord => "ELSE"
  | whileWord => "WHILE"
  | returnWord => "RETURN"
  | printWord => "PRINT"
  | i32Word => "I32"
  | boolWord => "BOOL"
  | plus => "PLUS"
  | minus => "MINUS"
  | star => "MULTIPLY"
  | slash => "DIVIDE"
  | assign => "ASSIGN"
  | equal => "EQUAL"
  | notEqual => "NOT_EQUAL"
  | less => "LESS_THAN"
  | greater => "GREATER_THAN"
  | lessEqual => "LESS_EQUAL"
  | greaterEqual => "GREATER_EQUAL"
  | and => "LOGICAL_AND"
  | or => "LOGICAL_OR"
  | not => "LOGICAL_NOT"
  | leftParen => "LEFT_PAREN"
  | rightParen => "RIGHT_PAREN"
  | leftBracket => "LEFT_BRACKET"
  | rightBracket => "RIGHT_BRACKET"
  | semicolon => "SEMICOLON"
  | comma => "COMMA"
  | colon => "COLON"
  | arrow => "ARROW"

/-- The text of a reserved word or operator; empty for the kinds without a fixed text. -/
def spelling : TokenKind → String
  | eof | integer | identifier => ""
  | trueWord => "true"
  | falseWord => "false"
  | funcWord => "func"
  | letWord => "let"
  | ifWord => "if"
  | elseWord => "else"
  | whileWord => "while"
  | returnWord => "return"
  | printWord => "print"
  | i32Word => "i32"
  | boolWord => "bool"
  | plus => "+"
  | minus => "-"
  | star => "*"
  | slash => "/"
  | assign => "="
  | equal => "=="
  | notEqual => "!="
  | less => "<"
  | greater => ">"
  | lessEqual => "<="
  | greaterEqual => ">="
  | and => "&&"
  | or => "||"
  | not => "!"
  | leftParen => "("
  | rightParen => ")"
  | leftBracket => "["
  | rightBracket => "]"
  | semicolon => ";"
  | comma => ","
  | colon => ":"
  | arrow => "->"

/-- The reserved words. -/
def keywords : List TokenKind :=
  [funcWord, letWord, ifWord, elseWord, whileWord, returnWord, printWord, i32Word, boolWord,
    trueWord, falseWord]

/-- The operators and the punctuation. -/
def operators : List TokenKind :=
  [plus, minus, star, slash, assign, equal, notEqual, less, greater, lessEqual, greaterEqual, and,
    or, not, leftParen, rightParen, leftBracket, rightBracket, semicolon, comma, colon, arrow]

/-- The length of the longest operator. -/
def maxOperatorLength : Nat := (operators.map (·.spelling.length)).foldl max 0

/-- The reserved word with this text. -/
def ofKeyword? (text : List Char) : Option TokenKind :=
  keywords.find? (·.spelling.toList = text)

/-- The operator with this text. -/
def ofOperator? (text : List Char) : Option TokenKind :=
  operators.find? (·.spelling.toList = text)

/-- The reserved words within two edits of a word, at most three, nearest first. -/
def keywordsNear (word : String) : List String :=
  (Text.nearest word 2 id (keywords.map spelling)).take 3

/-- How messages speak of a kind: by its text in quotes, if it has one. -/
def describe : TokenKind → String
  | eof => "end of file"
  | integer => "integer literal"
  | identifier => "identifier"
  | kind => s!"'{kind.spelling}'"

end TokenKind

end BracketLang
