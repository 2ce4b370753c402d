import BracketLang.Lexeme.Scan

/-! A scanner that is driven step by step. It stands at a position of a source text and keeps the
tokens and errors of the last full scan. -/

namespace BracketLang

/-- A scanner in the middle of its work. -/
structure Scanner where
  file : String
  source : List Char
  position : Position
  tokens : List Token
  errors : List LexicalError
deriving DecidableEq, Repr

namespace Scanner

/-- Why a step gave no token. -/
inductive Failure where
  | lexical (error : LexicalError)
  | tooManyDigits (digits : Nat)
  /-- There is no character left. -/
  | endOfSource
deriving DecidableEq, Repr

/-- A scanner before its first step. -/
def ofSource (file : String) (source : List Char) : Scanner := ⟨file, source, .start, [], []⟩

/-- The text that is still to be read. -/
def rest (s : Scanner) : List Char := s.source.drop s.position.offset

/-- Puts another text under the scanner, which stays where it is. -/
def withSource (s : Scanner) (source : List Char) : Scanner := { s with source }

/-- Moves over at most `n` characters. -/
def advance (s : Scanner) (n : Nat) : Scanner :=
  { s with position := s.position.after (s.rest.take n) }

/-- Moves over layout. -/
def skipLayout (s : Scanner) : Scanner := s.advance (Layout.split false s.rest).1.length

/-- Reads the lexeme that starts at the scanner. A character that starts no token is left where
it is; everything else is moved over. -/
def next (s : Scanner) : Except Failure Token × Scanner :=
  match s.rest with
  | [] => (.error .endOfSource, s)
  | c :: cs =>
    let lexeme := (Lexeme.split c cs).1
    let location := s.position.location s.file
    let moved := s.advance lexeme.text.length
    let text := String.ofList lexeme.text
    match lexeme.kind with
    | .token kind value => (.ok ⟨kind, text, value, location⟩, moved)
    | .error .invalidCharacter => (.error (.lexical ⟨.invalidCharacter, text, location⟩), s)
    | .error cause => (.error (.lexical ⟨cause, text, location⟩), moved)
    | .tooManyDigits => (.error (.tooManyDigits lexeme.text.length), moved)

/-- Scans the whole text from its start, in place of what the scanner held. -/
def tokenize (s : Scanner) : Except Failure (List Token) × Scanner :=
  let scan := Scan.ofSource s.file s.source
  let tokens := scan.tokens s.file
  let scanned := { s with position := scan.stop, tokens, errors := scan.errors }
  match scan.ending with
  | .endOfSource => (.ok tokens, scanned)
  | .tooManyDigits digits => (.error (.tooManyDigits digits), scanned)

end Scanner

end BracketLang
