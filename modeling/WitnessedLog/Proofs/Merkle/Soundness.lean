import WitnessedLog.Proofs.Merkle.Binding
import WitnessedLog.Proofs.Merkle.Completeness

/-!
# Soundness of inclusion proofs

A leaf that is accepted under the root of a tree is the leaf at its index, unless a collision
of the hash function can be shown.  The climb from the accepted leaf is compared with the
climb along the audit path of the index, which joins only pairs that are joined in the tree.
One of the two colliding byte strings was therefore hashed to build the tree, and the other
one on the climb.
-/

namespace WitnessedLog

namespace Merkle

section

variable (join : Hash → Hash → Hash)

/-! ## The pairs along an audit path -/

theorem treePairs_of_two_le_length
    {leaves : List Hash}
    (h : 2 ≤ leaves.length) :
    treePairs join leaves =
      treePairs join (leaves.take (splitPoint leaves.length)) ++
          treePairs join (leaves.drop (splitPoint leaves.length)) ++
        [(root join (leaves.take (splitPoint leaves.length)),
          root join (leaves.drop (splitPoint leaves.length)))] := by
  rw [treePairs, dif_pos h]

/-- Climbing along an audit path joins only pairs that are joined in the tree. -/
theorem climbPairs_auditPath_subset
    {leaves : List Hash} {index : Nat} {leaf : Hash}
    (hleaf : leaves[index]? = some leaf) (rest : List Hash) :
    climbPairs join index (leaves.length - 1) leaf (auditPath join index leaves ++ rest) ⊆
      treePairs join leaves := by
  induction leaves using root.induct generalizing index rest with
  | case1 leaves htwo ihleft ihright =>
      rw [treePairs_of_two_le_length join htwo, climbPairs_eq_walkPairs]
      cases inHalf_of_getElem? join htwo hleaf with
      | left hlast hexcess hindex hlength hleaf hpath =>
          have hpairs := ihleft hleaf (root join (leaves.drop (splitPoint leaves.length)) :: rest)
          have hwalk := climb_auditPath join hleaf
            (root join (leaves.drop (splitPoint leaves.length)) :: rest)
          rw [climbPairs_eq_walkPairs, hlength] at hpairs
          rw [climb_eq_walk, hlength] at hwalk
          rw [hpath, List.append_assoc, List.singleton_append, hlast, sides_left hindex hexcess,
            walkPairs_append_of_walk hwalk, List.append_assoc]
          apply List.append_subset.mpr
          constructor
          · exact List.subset_append_of_subset_left _ hpairs
          · exact List.subset_append_of_subset_right _ (List.subset_append_right _ _)
      | right hlast hexcess hindex hoffset hlength hleaf hpath =>
          have hpairs := ihright hleaf (root join (leaves.take (splitPoint leaves.length)) :: rest)
          have hwalk := climb_auditPath join hleaf
            (root join (leaves.take (splitPoint leaves.length)) :: rest)
          rw [climbPairs_eq_walkPairs, hlength] at hpairs
          rw [climb_eq_walk, hlength] at hwalk
          rw [hpath, List.append_assoc, List.singleton_append, hlast, hindex,
            sides_right hoffset hexcess, walkPairs_append_of_walk hwalk, List.append_assoc]
          apply List.append_subset.mpr
          constructor
          · exact List.subset_append_of_subset_right _
              (List.subset_append_of_subset_left _ hpairs)
          · exact List.subset_append_of_subset_right _ (List.subset_append_right _ _)
  | case2 leaves htwo =>
      rw [climbPairs_eq_walkPairs, show leaves.length - 1 = 0 by omega, sides_zero, walkPairs_nil]
      exact List.nil_subset _

/-! ## Accepted leaves -/

/-- The leaf at the end of a climb to the root of a tree is the leaf at its index, unless a
pair joined on the climb and another pair joined in the tree give the same node. -/
theorem getElem?_eq_or_exists_pair_of_climb
    {join : Hash → Hash → Hash} {leaves : List Hash} {index : Nat} {leaf : Hash}
    {path : List Hash}
    (hindex : index < leaves.length)
    (h : climb join index (leaves.length - 1) leaf path = .ok (root join leaves, [])) :
    leaves[index]? = some leaf ∨
      ∃ built ∈ treePairs join leaves,
        ∃ climbed ∈ climbPairs join index (leaves.length - 1) leaf path,
          built ≠ climbed ∧ join built.1 built.2 = join climbed.1 climbed.2 := by
  have hget : leaves[index]? = some leaves[index] := List.getElem?_eq_getElem hindex
  have haudit := climb_auditPath join hget []
  rcases eq_or_collideAtStep_of_climb haudit h with ⟨hleaf, -⟩ | hcollide
  · exact Or.inl (hget.trans (congrArg some hleaf))
  · obtain ⟨step, built, climbed, hbuilt, hclimbed, hne, hjoin⟩ := hcollide
    have htree : built ∈ treePairs join leaves :=
      climbPairs_auditPath_subset join hget [] (List.mem_of_getElem? hbuilt)
    exact Or.inr ⟨built, htree, climbed, List.mem_of_getElem? hclimbed, hne, hjoin⟩

end

/-! ## Hashed byte strings -/

/-- The hashed form of a pair that is joined. -/
def pairBytes (pair : Hash × Hash) : Bytes :=
  interiorBytes pair.1 pair.2

/-- The byte strings that are hashed to build the tree over a list of leaves. -/
def builtBytes (leaves : List Leaf) : List Bytes :=
  leaves.map Leaf.encode ++ (treePairs interior (leaves.map Leaf.hash)).map pairBytes

/-- The byte strings that are hashed to climb from a leaf along a path. -/
def climbedBytes (leaf : Leaf) (index last : Nat) (path : List Hash) : List Bytes :=
  leaf.encode :: (climbPairs interior index last leaf.hash path).map pairBytes

theorem pairBytes_inj
    {pair₁ pair₂ : Hash × Hash}
    (h : pairBytes pair₁ = pairBytes pair₂) : pair₁ = pair₂ := by
  have hlength : pair₁.1.bytes.length = pair₂.1.bytes.length := by
    rw [pair₁.1.length_bytes, pair₂.1.length_bytes]
  obtain ⟨hleft, hright⟩ := List.append_inj (List.cons.inj h).2 hlength
  exact Prod.ext (Octets.ext_bytes hleft) (Octets.ext_bytes hright)

/-- Inclusion proofs are sound: a leaf that is accepted under the size and root hash of the
tree over a list is the one at its index, unless a byte string hashed to build the tree and
another one hashed on the climb have the same digest. -/
theorem getElem?_eq_or_collision_of_checkInclusion
    {leaves : List Leaf} {leaf : Leaf} {index : UInt64} {head : TreeHead} {path : List Hash}
    (hsize : head.size.toNat = leaves.length)
    (hroot : head.rootHash = root interior (leaves.map Leaf.hash))
    (h : checkInclusion leaf.hash index head path = .ok ()) :
    index.toNat < leaves.length ∧
      (leaves[index.toNat]? = some leaf ∨
        ∃ built ∈ builtBytes leaves,
          ∃ climbed ∈ climbedBytes leaf index.toNat (leaves.length - 1) path,
            built ≠ climbed ∧ sha256 built = sha256 climbed) := by
  obtain ⟨hindex, hclimb⟩ := check_eq_ok_iff.mp h
  have hlength : (leaves.map Leaf.hash).length = leaves.length := List.length_map _
  rw [hsize] at hindex
  rw [hsize, hroot, ← hlength] at hclimb
  refine ⟨hindex, ?_⟩
  rcases getElem?_eq_or_exists_pair_of_climb (by rwa [hlength]) hclimb with hleaf | hpair
  · -- The hashes agree, so the canonical forms do or they collide.
    rw [List.getElem?_map, List.getElem?_eq_getElem hindex, Option.map_some] at hleaf
    have hhash : leaves[index.toNat].hash = leaf.hash := Option.some.inj hleaf
    by_cases hencode : leaves[index.toNat].encode = leaf.encode
    · rw [List.getElem?_eq_getElem hindex, Leaf.encode_inj hencode]
      exact Or.inl rfl
    · have hbuilt : leaves[index.toNat].encode ∈ builtBytes leaves :=
        List.mem_append_left _ (List.mem_map_of_mem (List.getElem_mem hindex))
      exact Or.inr ⟨_, hbuilt, _, List.mem_cons_self, hencode, hhash⟩
  · obtain ⟨built, hbuilt, climbed, hclimbed, hne, hjoin⟩ := hpair
    rw [hlength] at hclimbed
    exact Or.inr ⟨pairBytes built, List.mem_append_right _ (List.mem_map_of_mem hbuilt),
      pairBytes climbed, List.mem_cons_of_mem _ (List.mem_map_of_mem hclimbed),
      fun heq => hne (pairBytes_inj heq), hjoin⟩

end Merkle

end WitnessedLog
