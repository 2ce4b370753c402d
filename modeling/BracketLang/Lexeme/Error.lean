import BracketLang.Diagnostic
import BracketLang.Text.Printable
import BracketLang.Text.Quoted

/-! What can be wrong with a piece of source text: a character that starts no token, a number with
letters in it, a number that does not fit. -/

namespace BracketLang

/-- Why a piece of text is not a token. -/
inductive LexicalError.Cause where
  /-- The text is no beginning of a token. -/
  | invalidCharacter
  /-- A number holds more than digits. -/
  | malformedNumber (reason : String)
  /-- A number exceeds `limit`. -/
  | overflow (limit : Int)
deriving DecidableEq, Repr

/-- A piece of text that is not a token. -/
structure LexicalError where
  cause : LexicalError.Cause
  lexeme : String
  location : Location
deriving DecidableEq, Repr

namespace LexicalError

/-- The codes of lexical errors and what they stand for. -/
def codes : List (String × String) :=
  [("L001", "Invalid character"), ("L003", "Invalid numeric literal"),
    ("L007", "Number literal overflow")]

/-- The code of an error. -/
def code (e : LexicalError) : String :=
  match e.cause with
  | .invalidCharacter => "L001"
  | .malformedNumber _ => "L003"
  | .overflow _ => "L007"

/-- The two families of lexical errors. -/
def kindName (e : LexicalError) : String :=
  match e.cause with
  | .invalidCharacter => "INVALID_CHARACTER"
  | .malformedNumber _ | .overflow _ => "MALFORMED_NUMERIC_LITERAL"

/-- The operators that begin with a text that is no operator itself. -/
def completions : String → List String
  | "&" => ["&&"]
  | "|" => ["||"]
  | _ => []

/-- What is wrong. -/
def message (e : LexicalError) : String :=
  match e.cause with
  | .invalidCharacter => s!"Invalid character: '{e.lexeme}'"
  | .malformedNumber _ => s!"Invalid numeric literal: '{e.lexeme}'"
  | .overflow _ => s!"Integer literal out of range: '{e.lexeme}'"

/-- The capital hexadecimal digits of a character's code, four at least. -/
def codePoint (c : Char) : String :=
  String.ofList ((Text.hex 4 c.toNat).map Char.toUpper)

/-- Why it is wrong. A character that cannot be printed is named by its code. -/
def help (e : LexicalError) : String :=
  match e.cause with
  | .invalidCharacter =>
    match completions e.lexeme with
    | completion :: _ =>
      s!"'{e.lexeme}' on its own is not an operator. Did you mean '{completion}'?"
    | [] =>
      match e.lexeme.toList.find? fun c => !Text.isPrintable c with
      | none => s!"The character '{e.lexeme}' is not valid in source code."
      | some c => s!"Non-printable character (Unicode: U+{codePoint c}) is not allowed."
  | .malformedNumber reason => reason
  | .overflow limit => s!"Integer literals must not exceed {limit}."

/-- What to do about it; a number that is too large gets no suggestions at all. -/
def suggestions (e : LexicalError) : Option (List String) :=
  match e.cause with
  | .invalidCharacter => some (completions e.lexeme)
  | .malformedNumber _ =>
    some ["Separate the number from the following name with whitespace"]
  | .overflow _ => none

/-- The report of an error. -/
def diagnostic (e : LexicalError) : Diagnostic where
  message := e.message
  location := e.location
  severity := "error"
  code := e.code
  help := e.help
  suggestions := e.suggestions.getD []

/-- The rendered report. -/
def text (e : LexicalError) : String := e.diagnostic.text

end LexicalError

end BracketLang
