import BracketLang.Text.CaseForm
import BracketLang.Text.Cased

/-! Letter case of texts. Each character has its own forms, with one exception: the small form of
the Greek letter sigma is another one at the end of a word. -/

namespace BracketLang.Text

/-- Whether the first character that is not case-ignorable is cased. -/
def meetsCased (cs : List Char) : Bool := (cs.dropWhile isCaseIgnorable).head?.any isCased

/-- The small form of the capital sigma. `before` is the text in front of it, last character
first, and `after` the text behind it: it ends a word if a cased character stands before it and
none behind it. -/
def smallSigma (before after : List Char) : Char :=
  if meetsCased before && !meetsCased after then 'ς' else 'σ'

/-- A text in small letters; `before` is the text in front of it, last character first. -/
def lowerAfter (before : List Char) : List Char → List Char
  | [] => []
  | c :: cs =>
    (if c = 'Σ' then [smallSigma before cs] else lowerChar c) ++ lowerAfter (c :: before) cs

/-- A text in small letters. -/
def lower (s : String) : String := String.ofList (lowerAfter [] s.toList)

/-- A text in capital letters. -/
def upper (s : String) : String := String.ofList (s.toList.flatMap upperChar)

/-- A text whose first character has its title form and whose other letters are small. -/
def capitalized (s : String) : String :=
  match s.toList with
  | [] => ""
  | c :: cs => String.ofList (titleChar c ++ lowerAfter [c] cs)

end BracketLang.Text
