/-! # Tables of code points

A set of characters is given as a list of inclusive ranges of code points.
-/

namespace GuardedQuery.Text

def inRanges (ranges : List (Nat × Nat)) (c : Char) : Bool :=
  ranges.any fun range => range.1 ≤ c.toNat && c.toNat ≤ range.2

end GuardedQuery.Text
