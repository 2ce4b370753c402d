/-! Classes of characters that are given by ranges of code points. -/

namespace BracketLang.Text

/-- Whether a character lies in one of the closed ranges. -/
def inRanges (ranges : Array (Nat × Nat)) (c : Char) : Bool :=
  ranges.any fun (first, last) => first ≤ c.toNat && c.toNat ≤ last

end BracketLang.Text
