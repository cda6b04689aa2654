/-!
# Ranges of characters

A property of characters that follows no rule is a table: the ranges of code points
that have it, each given by its first and its last.
-/

namespace Stackwright.Text

/-- Ranges of code points, each from its first to its last. -/
abbrev Ranges : Type := List (Nat × Nat)

namespace Ranges

/-- Whether a code point lies in one of the ranges. -/
def covers (ranges : Ranges) (n : Nat) : Bool :=
  ranges.any fun (first, last) => first ≤ n && n ≤ last

end Ranges

end Stackwright.Text
