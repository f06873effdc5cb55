import WitnessedLog.Merkle.Inclusion

/-!
# Trees over lists of leaves

The tree over a list of leaf hashes, defined from the top: a list of two or more leaves is split
after the largest power of two below its length, and the roots of the halves are joined.  The audit
path of a leaf holds the roots of the halves that do not contain it, from the bottom up.  How two
nodes are joined is left open.
-/

namespace WitnessedLog

namespace Merkle

/-- The largest power of two strictly below a number greater than one. -/
def splitPoint (n : Nat) : Nat :=
  1 <<< (n - 1).log2

theorem splitPoint_pos (n : Nat) : 0 < splitPoint n := by
  rw [splitPoint, Nat.one_shiftLeft]
  exact Nat.two_pow_pos _

theorem splitPoint_lt
    {n : Nat}
    (h : 2 ≤ n) : splitPoint n < n := by
  have h' : 2 ^ (n - 1).log2 ≤ n - 1 := Nat.log2_self_le (by omega)
  rw [splitPoint, Nat.one_shiftLeft]
  omega

/-- The root of the tree over a list of leaf hashes. -/
def root (join : Hash → Hash → Hash) (leaves : List Hash) : Hash :=
  if _h : 2 ≤ leaves.length then
    join (root join (leaves.take (splitPoint leaves.length)))
      (root join (leaves.drop (splitPoint leaves.length)))
  else leaves.headD (sha256 [])
termination_by leaves.length
decreasing_by
  · have := splitPoint_lt _h
    simp only [List.length_take]
    omega
  · have := splitPoint_pos leaves.length
    simp only [List.length_drop]
    omega

/-- The audit path of the leaf at an index, from the bottom up. -/
def auditPath (join : Hash → Hash → Hash) (index : Nat) (leaves : List Hash) : List Hash :=
  if _h : 2 ≤ leaves.length then
    let half := splitPoint leaves.length
    if index < half then
      auditPath join index (leaves.take half) ++ [root join (leaves.drop half)]
    else auditPath join (index - half) (leaves.drop half) ++ [root join (leaves.take half)]
  else []
termination_by leaves.length
decreasing_by
  · have := splitPoint_lt _h
    simp only [List.length_take]
    omega
  · have := splitPoint_pos leaves.length
    simp only [List.length_drop]
    omega

end Merkle

end WitnessedLog
