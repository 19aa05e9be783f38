/-!
# Ranges of code points

A property of characters that follows no rule is given by a table: the closed ranges of the code
points that have it.
-/

namespace LogMining.Text

def inRanges (ranges : List (Nat × Nat)) (n : Nat) : Bool :=
  ranges.any fun r => r.1 ≤ n && n ≤ r.2

end LogMining.Text
