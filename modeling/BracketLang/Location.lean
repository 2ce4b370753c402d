import BracketLang.Text.Quoted

/-! Places in a source file. A `Location` is one point, a `Span` the stretch between the first
and the last token of a construct. Both have a short text, used in diagnostics, and a location
also has a full one that shows every field. -/

namespace BracketLang

/-- A point of a source file: `line` and `column` count from one, `offset` counts the characters
before it. -/
structure Location where
  file : String
  line : Int
  column : Int
  offset : Int
deriving DecidableEq, Repr, Inhabited

namespace Location

/-- The first point of a file. -/
def startOf (file : String) : Location := ⟨file, 1, 1, 0⟩

/-- The file name used for text that was not read from a file. -/
def unnamedFile : String := "<string>"

/-- Where an empty program stands. -/
def origin : Location := startOf unnamedFile

/-- The form that diagnostics use. -/
def text (l : Location) : String := s!"{l.file}:{l.line}:{l.column}"

/-- The form that shows all four fields. -/
def fullText (l : Location) : String :=
  s!"SourceLocation({Text.quoted l.file}, {l.line}, {l.column}, {l.offset})"

end Location

/-- A stretch of source text, given by the locations of its first and last token. -/
structure Span where
  start : Location
  finish : Location
deriving DecidableEq, Repr, Inhabited

namespace Span

/-- The span of a single token. -/
def point (l : Location) : Span := ⟨l, l⟩

/-- A span inside one file names the file once. -/
def text (s : Span) : String :=
  if s.start.file = s.finish.file then
    s!"{s.start.text}-{s.finish.line}:{s.finish.column}"
  else
    s!"{s.start.text}-{s.finish.text}"

end Span

end BracketLang
