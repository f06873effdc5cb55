import WitnessedLog.Leaf
import WitnessedLog.TreeHead

/-!
# Inclusion in a tree

The root hash of a tree is recomputed from one leaf and the siblings met on the way up.  The climb
follows the index of the current node and that of the last node on its level.  A last node without a
sibling is carried up as it is and uses no element of the path; every other step uses exactly one.
-/

namespace WitnessedLog

namespace Merkle

/-- The byte that opens the hashed form of an interior node. -/
def interiorOpening : UInt8 := 0x01

/-- The hashed form of an interior node: the opening byte and the two children. -/
def interiorBytes (left right : Hash) : Bytes :=
  interiorOpening :: (left.bytes ++ right.bytes)

/-- The hash of an interior node. -/
def interior (left right : Hash) : Hash :=
  sha256 (interiorBytes left right)

/-- Why a leaf is not shown to be in a tree. -/
inductive InclusionError where
  | indexOutOfRange (index size : UInt64)
  | sizeOneMismatch
  | emptyPath (size : UInt64)
  | pathTooShort
  | unusedPathElements (unused : Nat)
  | rootMismatch
  deriving DecidableEq

/-- The sentence shown for an inclusion error. -/
def InclusionError.message : InclusionError → String
  | .indexOutOfRange index size =>
    s!"leaf index {index} out of range for tree size {size}"
  | .sizeOneMismatch => "tree size is 1 but leaf does not match root hash"
  | .emptyPath size => s!"empty inclusion path for tree size {size}"
  | .pathTooShort => "invalid proof: inclusion path too short"
  | .unusedPathElements unused =>
    s!"internal error: unused path elements ({unused} left)"
  | .rootMismatch => "invalid proof: root hash mismatch"

/-- Climb from a node to the root, given the indices of the node and of the last node on its level
and how two nodes are joined.  The answer is the node reached and what is left of the path. -/
def climb (join : Hash → Hash → Hash) (index last : Nat) (node : Hash) (path : List Hash) :
    Except InclusionError (Hash × List Hash) :=
  if last = 0 then .ok (node, path)
  else if index % 2 = 1 then
    match path with
    | [] => .error .pathTooShort
    | sibling :: rest => climb join (index / 2) (last / 2) (join sibling node) rest
  else if index < last then
    match path with
    | [] => .error .pathTooShort
    | sibling :: rest => climb join (index / 2) (last / 2) (join node sibling) rest
  else climb join (index / 2) (last / 2) node path
termination_by last

/-- Check that a leaf stands at the given index of the tree that a tree head describes, given how two
nodes are joined. -/
def check (join : Hash → Hash → Hash) (leaf : Hash) (index : UInt64) (head : TreeHead)
    (path : List Hash) : Except InclusionError Unit :=
  if head.size ≤ index then .error (.indexOutOfRange index head.size)
  else if path = [] then
    if head.size ≠ 1 then .error (.emptyPath head.size)
    else if leaf = head.rootHash then .ok ()
    else .error .sizeOneMismatch
  else
    match climb join index.toNat (head.size.toNat - 1) leaf path with
    | .error e => .error e
    | .ok (node, []) => if node = head.rootHash then .ok () else .error .rootMismatch
    | .ok (_, unused) => .error (.unusedPathElements unused.length)

/-- Check that a leaf stands at the given index of the tree that a tree head describes. -/
def checkInclusion : Hash → UInt64 → TreeHead → List Hash → Except InclusionError Unit :=
  check interior

end Merkle

end WitnessedLog
