import BracketLang.Text.Case

/-! Edit distance, and the ranking of likely names that it gives. The distance is computed row by
row: the row for a text `s` holds, for every prefix of `t`, the distance from `s` to that prefix. -/

namespace BracketLang.Text

/-- Extends a row by one character `c` of the first text. `left` is the new entry to the left,
`row` the old row from the entry above it on, and `t` the rest of the second text. -/
def extendRow (c : Char) : (left : Nat) → (row : List Nat) → (t : List Char) → List Nat
  | left, diagonal :: above :: row, d :: t =>
    let entry := min (min (above + 1) (left + 1)) (diagonal + if c = d then 0 else 1)
    entry :: extendRow c entry (above :: row) t
  | _, _, _ => []

/-- The row for a text that is one character `c` longer. -/
def nextRow (t : List Char) (row : List Nat) (c : Char) : List Nat :=
  let first := row.headD 0 + 1
  first :: extendRow c first row t

/-- The distance from a text to one that is no longer. The empty text is as far away as there are
characters to delete, and needs no rows. -/
def distanceFrom (s t : List Char) : Nat :=
  if t.length = 0 then s.length
  else (s.foldl (nextRow t) (List.range (t.length + 1))).getLastD 0

/-- The least number of insertions, deletions and replacements of single characters that turn
one text into the other. It is the longer of them that is gone through. -/
def distance (s t : List Char) : Nat :=
  if s.length < t.length then distanceFrom t s else distanceFrom s t

/-- The least number of single-character edits that turn one text into the other. -/
def editDistance (s t : String) : Nat := distance s.toList t.toList

/-- The candidates within `limit` edits of `word` in small letters, nearest first; candidates at
the same distance keep their order. `key` is the form of a candidate that is compared. No
candidate is within a negative limit. -/
def nearest (word : String) (limit : Int) (key : String → String) (candidates : List String) :
    List String :=
  let word := lower word
  let distances := candidates.map fun candidate => (candidate, editDistance word (key candidate))
  let near := distances.filter fun (_, d) => d ≤ limit
  (near.mergeSort fun a b => a.2 ≤ b.2).map Prod.fst

end BracketLang.Text
