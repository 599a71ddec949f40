/-!
# Classes of code points

A character class of the Unicode standard is a list of inclusive ranges of code points, in ascending
order.
-/

namespace SlashCommands.Text

/-- Whether the character's code point lies in one of the ranges, both ends included. -/
def inRanges (ranges : List (Nat × Nat)) (c : Char) : Bool :=
  ranges.any fun range => range.1 ≤ c.toNat && c.toNat ≤ range.2

end SlashCommands.Text
