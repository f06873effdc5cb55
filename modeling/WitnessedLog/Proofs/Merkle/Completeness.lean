import Mathlib.Algebra.Order.Group.Nat
import WitnessedLog.Proofs.Merkle.Sides

/-!
# Completeness of audit paths

Every leaf of every tree is shown to be in it by its audit path.  A climb with the indices
of a whole tree first climbs within the half that holds the leaf, as if that half were a
tree of its own, and then takes one more step, whose sibling is the root of the other half.
-/

namespace WitnessedLog

namespace Merkle

/-- The split point is a power of two, below the number and not below its half. -/
theorem exists_splitPoint_eq_two_pow
    {n : Nat}
    (h : 2 ≤ n) :
    ∃ level excess, splitPoint n = 2 ^ level ∧ n - 1 = 2 ^ level + excess ∧ excess < 2 ^ level := by
  have hle : 2 ^ (n - 1).log2 ≤ n - 1 := Nat.log2_self_le (by omega)
  have hlt : n - 1 < 2 ^ ((n - 1).log2 + 1) := Nat.lt_log2_self
  rw [Nat.pow_succ] at hlt
  exact ⟨(n - 1).log2, n - 1 - 2 ^ (n - 1).log2, Nat.one_shiftLeft _, by omega, by omega⟩

section

variable (join : Hash → Hash → Hash)

/-! ## Trees with two halves -/

/-- The root of a tree with one leaf is that leaf. -/
theorem root_of_length_le_one
    {leaves : List Hash} {index : Nat} {leaf : Hash}
    (h : leaves.length ≤ 1) (hleaf : leaves[index]? = some leaf) : root join leaves = leaf := by
  rw [root, dif_neg (by omega)]
  obtain ⟨hindex, hget⟩ := List.getElem?_eq_some_iff.mp hleaf
  obtain ⟨only, rfl⟩ := List.length_eq_one_iff.mp (show leaves.length = 1 by omega)
  rw [List.getElem_singleton] at hget
  exact hget

theorem root_of_two_le_length
    {leaves : List Hash}
    (h : 2 ≤ leaves.length) :
    root join leaves =
      join (root join (leaves.take (splitPoint leaves.length)))
        (root join (leaves.drop (splitPoint leaves.length))) := by
  rw [root, dif_pos h]

theorem auditPath_of_length_le_one
    {leaves : List Hash} (index : Nat)
    (h : leaves.length ≤ 1) : auditPath join index leaves = [] := by
  rw [auditPath, dif_neg (by omega)]

theorem auditPath_of_lt
    {leaves : List Hash} {index : Nat}
    (h : 2 ≤ leaves.length) (hindex : index < splitPoint leaves.length) :
    auditPath join index leaves =
      auditPath join index (leaves.take (splitPoint leaves.length)) ++
        [root join (leaves.drop (splitPoint leaves.length))] := by
  rw [auditPath, dif_pos h, if_pos hindex]

theorem auditPath_of_le
    {leaves : List Hash} {index : Nat}
    (h : 2 ≤ leaves.length) (hindex : splitPoint leaves.length ≤ index) :
    auditPath join index leaves =
      auditPath join (index - splitPoint leaves.length)
          (leaves.drop (splitPoint leaves.length)) ++
        [root join (leaves.take (splitPoint leaves.length))] := by
  rw [auditPath, dif_pos h, if_neg (by omega)]

theorem auditPath_ne_nil
    {leaves : List Hash} (index : Nat)
    (h : 2 ≤ leaves.length) : auditPath join index leaves ≠ [] := by
  by_cases hindex : index < splitPoint leaves.length
  · rw [auditPath_of_lt join h hindex]
    exact List.append_ne_nil_of_right_ne_nil _ (List.cons_ne_nil _ _)
  · rw [auditPath_of_le join h (by omega)]
    exact List.append_ne_nil_of_right_ne_nil _ (List.cons_ne_nil _ _)

/-! ## The half that holds a leaf -/

/-- Where a leaf stands in a tree with two halves, the left one of which is full: how a climb
within its half begins, and by which sibling its audit path goes on. -/
inductive InHalf (leaves : List Hash) (index : Nat) (leaf : Hash) : Prop where
  | left {level excess : Nat}
    (hlast : leaves.length - 1 = 2 ^ level + excess)
    (hexcess : excess < 2 ^ level)
    (hindex : index < 2 ^ level)
    (hlength : (leaves.take (splitPoint leaves.length)).length - 1 = 2 ^ level - 1)
    (hleaf : (leaves.take (splitPoint leaves.length))[index]? = some leaf)
    (hpath : auditPath join index leaves =
      auditPath join index (leaves.take (splitPoint leaves.length)) ++
        [root join (leaves.drop (splitPoint leaves.length))])
  | right {level excess offset : Nat}
    (hlast : leaves.length - 1 = 2 ^ level + excess)
    (hexcess : excess < 2 ^ level)
    (hindex : index = 2 ^ level + offset)
    (hoffset : offset ≤ excess)
    (hlength : (leaves.drop (splitPoint leaves.length)).length - 1 = excess)
    (hleaf : (leaves.drop (splitPoint leaves.length))[offset]? = some leaf)
    (hpath : auditPath join index leaves =
      auditPath join offset (leaves.drop (splitPoint leaves.length)) ++
        [root join (leaves.take (splitPoint leaves.length))])

theorem inHalf_of_getElem?
    {leaves : List Hash} {index : Nat} {leaf : Hash}
    (h : 2 ≤ leaves.length) (hleaf : leaves[index]? = some leaf) :
    InHalf join leaves index leaf := by
  obtain ⟨level, excess, hsplit, hlast, hexcess⟩ := exists_splitPoint_eq_two_pow h
  obtain ⟨hindex, -⟩ := List.getElem?_eq_some_iff.mp hleaf
  by_cases hhalf : index < splitPoint leaves.length
  · have hlength : (leaves.take (splitPoint leaves.length)).length - 1 = 2 ^ level - 1 := by
      rw [List.length_take]
      omega
    have hleft : (leaves.take (splitPoint leaves.length))[index]? = some leaf := by
      rw [List.getElem?_take_of_lt hhalf, hleaf]
    exact .left hlast hexcess (hsplit ▸ hhalf) hlength hleft (auditPath_of_lt join h hhalf)
  · obtain ⟨offset, rfl⟩ := Nat.exists_eq_add_of_le (Nat.le_of_not_lt hhalf)
    have hlength : (leaves.drop (splitPoint leaves.length)).length - 1 = excess := by
      rw [List.length_drop]
      omega
    have hright : (leaves.drop (splitPoint leaves.length))[offset]? = some leaf := by
      rw [List.getElem?_drop, hleaf]
    have hpath := auditPath_of_le join h (Nat.le_add_right (splitPoint leaves.length) offset)
    rw [Nat.add_sub_cancel_left] at hpath
    exact .right hlast hexcess (congrArg (· + offset) hsplit) (by omega) hlength hright hpath

/-! ## One step of a climb -/

@[simp] theorem climb_zero
    (index : Nat) (node : Hash) (path : List Hash) :
    climb join index 0 node path = .ok (node, path) := by
  rw [climb.eq_def, if_pos rfl]

/-- The last step of a climb from the left half. -/
theorem climb_zero_one
    (node sibling : Hash) (rest : List Hash) :
    climb join 0 1 node (sibling :: rest) = .ok (join node sibling, rest) := by
  rw [climb_eq_walk, sides_zero_one]
  rfl

/-- The last step of a climb from the right half. -/
theorem climb_one_one
    (node sibling : Hash) (rest : List Hash) :
    climb join 1 1 node (sibling :: rest) = .ok (join sibling node, rest) := by
  rw [climb_eq_walk, sides_one_one]
  rfl

/-! ## Climbing a half first -/

/-- From a leaf of the left half, which is a full tree, the climb reaches the root of the
left half and then goes on from a left child. -/
theorem climb_left
    {level index excess : Nat} (node : Hash) (path : List Hash)
    (hindex : index < 2 ^ level) (hexcess : excess < 2 ^ level) :
    climb join index (2 ^ level + excess) node path =
      climb join index (2 ^ level - 1) node path >>= fun (top, rest) =>
        climb join 0 1 top rest := by
  simp only [climb_eq_walk, sides_zero_one]
  rw [sides_left hindex hexcess, walk_append]

/-- From a leaf of the right half the climb reaches the root of the right half, is carried
up to the level of the left one, and then goes on from a right child. -/
theorem climb_right
    {level index excess : Nat} (node : Hash) (path : List Hash)
    (hindex : index ≤ excess) (hexcess : excess < 2 ^ level) :
    climb join (2 ^ level + index) (2 ^ level + excess) node path =
      climb join index excess node path >>= fun (top, rest) =>
        climb join 1 1 top rest := by
  simp only [climb_eq_walk, sides_one_one]
  rw [sides_right hindex hexcess, walk_append]

/-! ## Climbing an audit path -/

/-- The climb from a leaf along its audit path reaches the root and uses nothing else. -/
theorem climb_auditPath
    {leaves : List Hash} {index : Nat} {leaf : Hash}
    (hleaf : leaves[index]? = some leaf) (rest : List Hash) :
    climb join index (leaves.length - 1) leaf (auditPath join index leaves ++ rest) =
      .ok (root join leaves, rest) := by
  induction leaves using root.induct generalizing index rest with
  | case1 leaves htwo ihleft ihright =>
      rw [root_of_two_le_length join htwo]
      cases inHalf_of_getElem? join htwo hleaf with
      | left hlast hexcess hindex hlength hleaf hpath =>
          have hclimb := ihleft hleaf (root join (leaves.drop (splitPoint leaves.length)) :: rest)
          rw [hlength] at hclimb
          rw [hpath, List.append_assoc, List.singleton_append, hlast,
            climb_left join _ _ hindex hexcess, hclimb]
          exact climb_zero_one join _ _ rest
      | right hlast hexcess hindex hoffset hlength hleaf hpath =>
          have hclimb := ihright hleaf (root join (leaves.take (splitPoint leaves.length)) :: rest)
          rw [hlength] at hclimb
          rw [hpath, List.append_assoc, List.singleton_append, hlast, hindex,
            climb_right join _ _ hoffset hexcess, hclimb]
          exact climb_one_one join _ _ rest
  | case2 leaves htwo =>
      have hone : leaves.length ≤ 1 := by omega
      rw [auditPath_of_length_le_one join index hone, root_of_length_le_one join hone hleaf,
        Nat.sub_eq_zero_of_le hone]
      exact climb_zero join index leaf rest

/-- Every leaf of a tree is accepted at its index with its audit path, however two nodes are
joined. -/
theorem check_auditPath
    {leaves : List Hash} {index : Nat}
    (hsize : leaves.length < 2 ^ 64) (hindex : index < leaves.length) :
    check join leaves[index] (.ofNat index) ⟨.ofNat leaves.length, root join leaves⟩
      (auditPath join index leaves) = .ok () := by
  have hleaf : leaves[index]? = some leaves[index] := List.getElem?_eq_getElem hindex
  have hlength : (UInt64.ofNat leaves.length).toNat = leaves.length :=
    UInt64.toNat_ofNat_of_lt' hsize
  have hposition : (UInt64.ofNat index).toNat = index :=
    UInt64.toNat_ofNat_of_lt' (Nat.lt_trans hindex hsize)
  have hrange : ¬UInt64.ofNat leaves.length ≤ UInt64.ofNat index := by
    rw [UInt64.le_iff_toNat_le, hlength, hposition]
    omega
  rw [check, if_neg hrange]
  by_cases htwo : 2 ≤ leaves.length
  · have hclimb := climb_auditPath join hleaf []
    rw [List.append_nil] at hclimb
    rw [if_neg (auditPath_ne_nil join index htwo), hposition, hlength, hclimb]
    exact if_pos rfl
  · have hone : leaves.length = 1 := by omega
    rw [if_pos (auditPath_of_length_le_one join index (Nat.le_of_eq hone)), if_neg (by simp [hone]),
      if_pos (root_of_length_le_one join (Nat.le_of_eq hone) hleaf).symm]

end

/-- The last leaf of three is carried up before it is joined. -/
theorem checkInclusion_last_of_three :
    let leaves := [sha256 [0], sha256 [1], sha256 [2]]
    leaves.length < 2 ^ 64 ∧ 2 < leaves.length ∧
      checkInclusion leaves[2] 2 ⟨3, root interior leaves⟩ (auditPath interior 2 leaves) = .ok () :=
  ⟨by decide, by decide, check_auditPath interior (by decide) (by decide)⟩

end Merkle

end WitnessedLog
