import BracketLang.Diagnostic
import BracketLang.Grammar.Precedence
import BracketLang.Token.Basic

/-! What can be wrong with the order of tokens. Every syntax error blames one token, the first one
that does not fit, and stands at its location. -/

namespace BracketLang

/-- Why the tokens are not a program. -/
inductive SyntaxError.Cause where
  /-- One of some kinds was expected, for which messages say `what` if it is given. -/
  | unexpected (expected : List TokenKind) (what : Option String)
  /-- The block that was opened at a location does not end. -/
  | unterminatedBlock (opening : Location)
  /-- The input ended where `expected` should have been. -/
  | unterminatedExpression (expected : String)
  /-- An expression nests deeper than `limit` levels. -/
  | nestingTooDeep (limit : Int)
deriving DecidableEq, Repr

/-- A cause and the token that shows it. -/
structure SyntaxError where
  cause : SyntaxError.Cause
  found : Token
deriving DecidableEq, Repr

namespace SyntaxError

/-- The codes of syntax errors and what they stand for. -/
def codes : List (String × String) :=
  [("P001", "Unexpected token"), ("P004", "Unclosed block"), ("P010", "Unexpected end of input"),
    ("P011", "Expression nested too deeply")]

def code (e : SyntaxError) : String :=
  match e.cause with
  | .unexpected .. => "P001"
  | .unterminatedBlock _ => "P004"
  | .unterminatedExpression _ => "P010"
  | .nestingTooDeep _ => "P011"

def kindName (e : SyntaxError) : String :=
  match e.cause with
  | .unexpected .. => "UNEXPECTED_TOKEN"
  | .unterminatedBlock _ => "UNTERMINATED_BLOCK"
  | .unterminatedExpression _ => "UNTERMINATED_EXPRESSION"
  | .nestingTooDeep _ => "NESTING_TOO_DEEP"

/-- The advice for a kind of token that is missing. -/
def missingToken : TokenKind → List String
  | .semicolon => ["Add a semicolon ';' to end the statement"]
  | .rightParen => ["Add a closing parenthesis ')'"]
  | .rightBracket => ["Add a closing bracket ']' to end the block"]
  | .leftBracket => ["Add an opening bracket '[' to start a block"]
  | .colon => ["Add a colon ':' before the type annotation"]
  | .arrow => ["Add an arrow '->' before the return type"]
  | .assign => ["Add an assignment operator '='"]
  | _ => []

/-- The reserved words that a name may have been meant for. -/
def misspelledKeyword (found : Token) : List String :=
  if found.isIdentifier then
    (TokenKind.keywordsNear found.lexeme).map fun word => s!"Did you mean '{word}'?"
  else
    []

/-- How a message puts what was expected. -/
def wanted (expected : List TokenKind) : Option String → String
  | some what => what
  | none =>
    match expected with
    | [kind] => kind.describe
    | kinds => "one of " ++ ", ".intercalate (kinds.map TokenKind.describe)

/-- What would have been accepted. -/
def expected (e : SyntaxError) : List String :=
  match e.cause with
  | .unexpected _ (some what) => [what]
  | .unexpected kinds none => kinds.map TokenKind.describe
  | .unterminatedBlock _ => [TokenKind.rightBracket.describe]
  | .unterminatedExpression expected => [expected]
  | .nestingTooDeep _ => []

def message (e : SyntaxError) : String :=
  match e.cause with
  | .unexpected kinds what => s!"Expected {wanted kinds what}, found {e.found.describe}"
  | .unterminatedBlock _ => "Unterminated block: missing ']'"
  | .unterminatedExpression expected => s!"Unexpected end of input, expected {expected}"
  | .nestingTooDeep limit => s!"Expression nested too deeply (limit is {limit} levels)"

def help (e : SyntaxError) : String :=
  match e.cause with
  | .unexpected kinds what =>
    s!"The parser expected to see {wanted kinds what} at this position, "
      ++ s!"but found {e.found.describe} instead."
  | .unterminatedBlock opening => s!"The block opened with '[' at {opening.text} was never closed."
  | .unterminatedExpression expected =>
    s!"The parser reached the end of the file while expecting {expected}."
  | .nestingTooDeep _ => "Parentheses, unary operators and call arguments may only nest so far."

def suggestions (e : SyntaxError) : List String :=
  match e.cause with
  | .unexpected kinds _ => kinds.flatMap missingToken ++ misspelledKeyword e.found
  | .unterminatedBlock _ => missingToken .rightBracket
  | .unterminatedExpression expected =>
    [s!"Add the missing {expected}", "Check for incomplete statements"]
  | .nestingTooDeep _ => ["Split the expression using intermediate 'let' bindings"]

/-- An error stands where the blamed token stands. -/
def location (e : SyntaxError) : Location := e.found.location

def diagnostic (e : SyntaxError) : Diagnostic where
  message := e.message
  location := e.location
  severity := "error"
  code := e.code
  help := e.help
  suggestions := e.suggestions

def text (e : SyntaxError) : String := e.diagnostic.text

end SyntaxError

end BracketLang
