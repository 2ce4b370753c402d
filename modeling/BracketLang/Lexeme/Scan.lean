import BracketLang.Lexeme.Basic

/-! Scanning a source text: layout is dropped, each lexeme becomes a token or a lexical error, and
the scan goes on behind it. It stops at the end of the text, or behind a number with more digits
than can be read. -/

namespace BracketLang

/-- What the scan makes of a lexeme. -/
inductive Piece where
  | token (token : Token)
  | error (error : LexicalError)
deriving DecidableEq, Repr

namespace Piece

def token? : Piece → Option Token
  | .token t => some t
  | .error _ => none

def error? : Piece → Option LexicalError
  | .token _ => none
  | .error e => some e

end Piece

/-- The piece that a lexeme at `location` makes, unless it is a number too long to read. -/
def Lexeme.piece? (l : Lexeme) (location : Location) : Option Piece :=
  match l.kind with
  | .token kind value => some (.token ⟨kind, String.ofList l.text, value, location⟩)
  | .error cause => some (.error ⟨cause, String.ofList l.text, location⟩)
  | .tooManyDigits => none

/-- Why a scan stopped. -/
inductive Scan.Ending where
  | endOfSource
  | tooManyDigits (digits : Nat)
deriving DecidableEq, Repr

/-- The pieces that a scan found, in order, and where and why it stopped. -/
structure Scan where
  pieces : List Piece
  ending : Scan.Ending
  stop : Position
deriving DecidableEq, Repr

namespace Scan

/-- Scans `cs`, whose first character stands at `p`. -/
def run (file : String) (p : Position) (cs : List Char) : Scan :=
  let layout := Layout.split false cs
  let start := p.after layout.1
  match _h : layout.2 with
  | [] => ⟨[], .endOfSource, start⟩
  | c :: rest =>
    let lexeme := Lexeme.split c rest
    let stop := start.after lexeme.1.text
    match lexeme.1.piece? (start.location file) with
    | none => ⟨[], .tooManyDigits lexeme.1.text.length, stop⟩
    | some piece =>
      let scan := run file stop lexeme.2
      ⟨piece :: scan.pieces, scan.ending, scan.stop⟩
termination_by cs.length
decreasing_by
  have h₁ := Layout.length_split_snd_le false cs
  have h₂ := Lexeme.length_split_snd_le c rest
  rw [show (Layout.split false cs).2 = c :: rest from _h, List.length_cons] at h₁
  omega

/-- Scans a whole source text. -/
def ofSource (file : String) (source : List Char) : Scan := run file .start source

/-- The tokens of a scan; a scan that reached the end closes them with an end-of-file token. -/
def tokens (s : Scan) (file : String) : List Token :=
  s.pieces.filterMap Piece.token? ++
    match s.ending with
    | .endOfSource => [Token.eofAt (s.stop.location file)]
    | .tooManyDigits _ => []

/-- The lexical errors of a scan. -/
def errors (s : Scan) : List LexicalError := s.pieces.filterMap Piece.error?

end Scan

end BracketLang
