import WitnessedLog.Bytes

/-!
# The length of a path

How many siblings a leaf meets on the way to the root.  Below the level on which the ways of the leaf
and of the last leaf meet there is one sibling on each level; above it there is one on each level on
which the common node is a right child.
-/

namespace WitnessedLog

namespace Merkle

/-- The number of binary digits of a number; zero has none. -/
def bitLength (n : Nat) : Nat :=
  if n = 0 then 0 else bitLength (n / 2) + 1
termination_by n

/-- The number of ones among the binary digits of a number. -/
def ones (n : Nat) : Nat :=
  if n = 0 then 0 else n % 2 + ones (n / 2)
termination_by n

/-- The number of siblings on the way up from the leaf at an index of a tree of the given size. -/
def pathLength (index size : Nat) : Nat :=
  let inner := bitLength (index ^^^ (size - 1))
  inner + ones (index >>> inner)

end Merkle

end WitnessedLog
