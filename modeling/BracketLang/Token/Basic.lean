import BracketLang.Location
import BracketLang.Token.Kind

/-! Tokens: a kind, the text read, the value that the text stands for, and where it was found. -/

namespace BracketLang

/-- A value that a token can stand for. -/
inductive Literal where
  | int (value : Int)
  | bool (value : Bool)
deriving DecidableEq, Repr

namespace Literal

/-- How a value is shown; a token without a value shows `None`. -/
def text : Option Literal → String
  | some (.int n) => toString n
  | some (.bool true) => "True"
  | some (.bool false) => "False"
  | none => "None"

end Literal

/-- A token. Integers carry their number and `true` and `false` their truth value; the scan makes
no other values. -/
structure Token where
  kind : TokenKind
  lexeme : String
  value : Option Literal
  location : Location
deriving DecidableEq, Repr

namespace Token

/-- The token that stands for the end of input at `location`. -/
def eofAt (location : Location) : Token := ⟨.eof, "", none, location⟩

/-- Kind, text and, if there is one, value. -/
def text (t : Token) : String :=
  if t.value.isSome then
    s!"{t.kind.name}({Text.quoted t.lexeme} -> {Literal.text t.value})"
  else
    s!"{t.kind.name}({Text.quoted t.lexeme})"

/-- All fields of a token. -/
def fullText (t : Token) : String :=
  s!"Token({t.kind.name}, {Text.quoted t.lexeme}, {Literal.text t.value}, {t.location.fullText})"

/-- Whether the token is a name. -/
def isIdentifier (t : Token) : Bool := t.kind = .identifier

/-- How messages speak of a token that should not be there. -/
def describe (t : Token) : String :=
  if t.kind = .eof then TokenKind.eof.describe else s!"'{t.lexeme}'"

end Token

/-- The least number that fits in an integer of 32 bits. -/
def int32Min : Int := -2147483648

/-- The greatest number that fits in an integer of 32 bits. -/
def int32Max : Int := 2147483647

end BracketLang
