/-!
# Sets of characters

A set of characters is given by ranges of code points, each with its first and its last one.
-/

namespace SmallC.Text

/-- A set of characters as ranges of code points. -/
structure CharSet where
  ranges : List (Nat × Nat)

namespace CharSet

/-- The ranges from a code point on, given how many code points lie outside of the set and how many
in it, in turns. -/
def runs : Nat → List Nat → List (Nat × Nat)
  | next, outside :: inside :: others =>
    (next + outside, next + outside + inside - 1) :: runs (next + outside + inside) others
  | _, _ => []

/-- Whether a character is in a set. -/
def contains (set : CharSet) (c : Char) : Bool :=
  set.ranges.any fun range => range.1 ≤ c.toNat && c.toNat ≤ range.2

end CharSet

end SmallC.Text
