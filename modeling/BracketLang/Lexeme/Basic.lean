import BracketLang.Lexeme.Error
import BracketLang.Lexeme.Layout
import BracketLang.Token.Basic

/-! Lexemes: the pieces of text that stand between layout. A lexeme is the longest piece that its
first character allows, and its class says which token it is or why it is none.

* A digit starts a number, which runs through digits, letters and `_`; only digits are allowed
  in it.
* A letter or `_` starts a word, which runs the same way; reserved words have kinds of their own.
* Any other character starts the longest operator found there. -/

namespace BracketLang

/-- What a lexeme is. -/
inductive LexemeClass where
  | token (kind : TokenKind) (value : Option Literal)
  | error (cause : LexicalError.Cause)
  /-- A number with more digits than can be read. -/
  | tooManyDigits
deriving DecidableEq, Repr

/-- A piece of text and what it is. -/
structure Lexeme where
  text : List Char
  kind : LexemeClass
deriving DecidableEq, Repr

namespace Lexeme

/-- The characters that can start a word. -/
def isWordStart (c : Char) : Bool := c.isAlpha || c = '_'

/-- The characters that continue a word or a number. -/
def isWordChar (c : Char) : Bool := c.isAlphanum || c = '_'

/-- The greatest number of digits that is read as a number. -/
def digitLimit : Nat := 4300

/-- The number that decimal digits stand for. -/
def decimal (digits : List Char) : Nat :=
  digits.foldl (fun n c => n * 10 + (c.toNat - '0'.toNat)) 0

/-- What a run of word characters is when it starts with a digit. -/
def numberClass (text : List Char) : LexemeClass :=
  if !text.all Char.isDigit then
    .error (.malformedNumber "Numeric literals may only contain the digits 0-9.")
  else if digitLimit < text.length then
    .tooManyDigits
  else if int32Max < decimal text then
    .error (.overflow int32Max)
  else
    .token .integer (some (.int (decimal text)))

/-- What a run of word characters is when it starts with a letter or `_`. -/
def wordClass (text : List Char) : LexemeClass :=
  match TokenKind.ofKeyword? text with
  | some .trueWord => .token .trueWord (some (.bool true))
  | some .falseWord => .token .falseWord (some (.bool false))
  | some kind => .token kind none
  | none => .token .identifier none

/-- The operator of two characters that begins with `c`, with the text behind it. -/
def pairOperator? (c : Char) : List Char → Option (Lexeme × List Char)
  | [] => none
  | d :: cs => (TokenKind.ofOperator? [c, d]).map fun kind =>
    (⟨[c, d], .token kind none⟩, cs)

/-- What a character is that starts neither a number, nor a word, nor a longer operator. -/
def singleClass (c : Char) : LexemeClass :=
  match TokenKind.ofOperator? [c] with
  | some kind => .token kind none
  | none => .error .invalidCharacter

/-- Splits a text after its first lexeme. -/
def split (c : Char) (cs : List Char) : Lexeme × List Char :=
  if c.isDigit then
    let text := c :: cs.takeWhile isWordChar
    (⟨text, numberClass text⟩, cs.dropWhile isWordChar)
  else if isWordStart c then
    let text := c :: cs.takeWhile isWordChar
    (⟨text, wordClass text⟩, cs.dropWhile isWordChar)
  else
    (pairOperator? c cs).getD (⟨[c], singleClass c⟩, cs)

theorem split_append (c : Char) (cs : List Char) :
    (split c cs).1.text ++ (split c cs).2 = c :: cs := by
  unfold split
  split
  · simp
  split
  · simp
  cases cs with
  | nil => rfl
  | cons d cs =>
    cases h : TokenKind.ofOperator? [c, d] <;> simp [pairOperator?, h]

theorem length_split_snd_le (c : Char) (cs : List Char) :
    (split c cs).2.length ≤ cs.length := by
  unfold split
  split
  · exact (List.dropWhile_suffix isWordChar).length_le
  split
  · exact (List.dropWhile_suffix isWordChar).length_le
  cases cs with
  | nil => exact Nat.le_refl 0
  | cons d cs =>
    cases h : TokenKind.ofOperator? [c, d] <;> simp [pairOperator?, h]

end Lexeme

end BracketLang
