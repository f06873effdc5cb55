import WitnessedLog.Merkle.Tree

/-!
# Joined pairs

Which pairs of nodes are joined, in the order in which a climb joins them or the tree over a list of
leaves is built.  Two different pairs with one hash among them are a collision that can be shown.
-/

namespace WitnessedLog

namespace Merkle

/-- The pairs that a climb joins, from the bottom up, as long as its path lasts. -/
def climbPairs (join : Hash → Hash → Hash) (index last : Nat) (node : Hash) (path : List Hash) :
    List (Hash × Hash) :=
  if last = 0 then []
  else if index % 2 = 1 then
    match path with
    | [] => []
    | sibling :: rest =>
      (sibling, node) :: climbPairs join (index / 2) (last / 2) (join sibling node) rest
  else if index < last then
    match path with
    | [] => []
    | sibling :: rest =>
      (node, sibling) :: climbPairs join (index / 2) (last / 2) (join node sibling) rest
  else climbPairs join (index / 2) (last / 2) node path
termination_by last

/-- The pairs that are joined in the tree over a list of leaf hashes. -/
def treePairs (join : Hash → Hash → Hash) (leaves : List Hash) : List (Hash × Hash) :=
  if _h : 2 ≤ leaves.length then
    let left := leaves.take (splitPoint leaves.length)
    let right := leaves.drop (splitPoint leaves.length)
    treePairs join left ++ treePairs join right ++ [(root join left, root join right)]
  else []
termination_by leaves.length
decreasing_by
  · have := splitPoint_lt _h
    simp only [List.length_take]
    omega
  · have := splitPoint_pos leaves.length
    simp only [List.length_drop]
    omega

end Merkle

end WitnessedLog
