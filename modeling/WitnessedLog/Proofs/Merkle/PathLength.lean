import Mathlib.Algebra.Order.Group.Nat
import Mathlib.Data.Nat.Bitwise
import WitnessedLog.Merkle.PathLength
import WitnessedLog.Proofs.Merkle.Sides

/-!
# The verdict on paths of every length

How many siblings a climb uses depends on the index and the size alone.  Below the level on
which the ways of the leaf and of the last leaf meet, every node has a sibling; from there on
the two ways are one, and only a right child has a sibling.  So a path is too short, too long,
or decided by the one node to which it leads.
-/

namespace WitnessedLog

namespace Merkle

/-! ## Binary digits -/

@[simp] theorem bitLength_zero : bitLength 0 = 0 := by
  rw [bitLength, if_pos rfl]

theorem bitLength_of_ne_zero
    {n : Nat}
    (h : n ≠ 0) : bitLength n = bitLength (n / 2) + 1 := by
  rw [bitLength, if_neg h]

@[simp] theorem ones_zero : ones 0 = 0 := by
  rw [ones, if_pos rfl]

theorem ones_eq (n : Nat) : ones n = n % 2 + ones (n / 2) := by
  by_cases h : n = 0
  · rw [h]
    simp
  · rw [ones, if_neg h]

/-! ## The length of a path, level by level -/

/-- On the way of the last leaf, only right children have a sibling. -/
theorem pathLength_last (last : Nat) : pathLength last (last + 1) = ones last := by
  simp [pathLength]

/-- As long as the ways of the leaf and of the last leaf are apart, each level counts. -/
theorem pathLength_of_ne
    {index last : Nat}
    (h : index ≠ last) :
    pathLength index (last + 1) = pathLength (index / 2) (last / 2 + 1) + 1 := by
  have hne : index ^^^ last ≠ 0 := fun hzero => h (Nat.eq_of_xor_eq_zero hzero)
  have hshift (inner : Nat) : index >>> (inner + 1) = (index / 2) >>> inner := by
    rw [Nat.add_comm, Nat.shiftRight_add, Nat.shiftRight_one]
  simp only [pathLength, Nat.add_sub_cancel]
  rw [bitLength_of_ne_zero hne, Nat.xor_div_two, hshift]
  omega

/-- A climb joins as many nodes as the index and the size say. -/
theorem length_sides
    {index last : Nat}
    (h : index ≤ last) : (sides index last).length = pathLength index (last + 1) := by
  induction index, last using sides.induct with
  | case1 index =>
      have hindex : index = 0 := Nat.le_zero.mp h
      rw [hindex, sides_zero, pathLength_last, ones_zero]
      rfl
  | case2 index last hlast hodd ih =>
      rw [sides_of_odd (Nat.pos_of_ne_zero hlast) hodd, List.length_cons, ih (by omega)]
      by_cases hmet : index = last
      · rw [hmet, pathLength_last, pathLength_last, ones_eq last]
        omega
      · rw [pathLength_of_ne hmet]
  | case3 index last _ hodd hlt ih =>
      rw [sides_of_even_of_lt (by omega) hlt, List.length_cons, ih (by omega),
        pathLength_of_ne (Nat.ne_of_lt hlt)]
  | case4 index last hlast hodd hlt ih =>
      have hmet : index = last := by omega
      rw [sides_of_even_of_le (Nat.pos_of_ne_zero hlast) (by omega) (by omega), ih (by omega),
        hmet, pathLength_last, pathLength_last, ones_eq last]
      omega

/-- In a tree of several leaves, every leaf has a sibling on its way. -/
theorem pathLength_pos
    {index size : Nat}
    (hindex : index < size) (hsize : 1 < size) : 1 ≤ pathLength index size := by
  obtain ⟨last, rfl⟩ := Nat.exists_eq_add_of_le' (Nat.le_of_lt hsize)
  rw [← length_sides (Nat.le_of_lt_succ hindex)]
  exact List.length_pos_iff.mpr (sides_ne_nil (Nat.le_of_lt_succ hindex) (by omega))

section

variable (join : Hash → Hash → Hash)

/-! ## Where a walk ends -/

/-- The node to which siblings lead, one for each side. -/
def reached (along : List Side) (node : Hash) (path : List Hash) : Hash :=
  (along.zip path).foldl
    (fun node (side, sibling) => join (side.pair node sibling).1 (side.pair node sibling).2) node

/-- A walk fails for a path that is too short, and for no other. -/
theorem walk_eq
    (along : List Side) (node : Hash) (path : List Hash) :
    walk join along node path =
      if path.length < along.length then .error .pathTooShort
        else .ok (reached join along node path, path.drop along.length) := by
  induction along generalizing node path with
  | nil => rfl
  | cons side above ih =>
      cases path with
      | nil => rfl
      | cons sibling path =>
          rw [walk, ih]
          simp only [List.length_cons, Nat.add_lt_add_iff_right, List.drop_succ_cons]
          rfl

/-! ## The verdict -/

/-- The index of the last leaf is one less than the size, if there is a leaf at all. -/
theorem toNat_pred_size
    {index size : UInt64}
    (h : index < size) : (size - 1).toNat + 1 = size.toNat := by
  have hsize : 1 ≤ size.toNat := Nat.lt_of_le_of_lt (Nat.zero_le _) (UInt64.lt_iff_toNat_lt.mp h)
  have hpred : (size - 1).toNat = size.toNat - 1 :=
    UInt64.toNat_sub_of_le size 1 (UInt64.le_iff_toNat_le.mpr hsize)
  omega

theorem length_sides_of_lt
    {index size : UInt64}
    (h : index < size) :
    (sides index.toNat (size - 1).toNat).length = pathLength index.toNat size.toNat := by
  have hlt : index.toNat < size.toNat := UInt64.lt_iff_toNat_lt.mp h
  have hlast := toNat_pred_size h
  rw [length_sides (by omega), hlast]

theorem check_of_lt
    {leaf : Hash} {index : UInt64} {head : TreeHead} {path : List Hash}
    (h : index < head.size) :
    check join leaf index head path =
      if path = [] then
        if head.size ≠ 1 then .error (.emptyPath head.size)
        else if leaf = head.rootHash then .ok ()
        else .error .sizeOneMismatch
      else if path.length < pathLength index.toNat head.size.toNat then .error .pathTooShort
      else if pathLength index.toNat head.size.toNat < path.length then
        .error (.unusedPathElements (path.length - pathLength index.toNat head.size.toNat))
      else if reached join (sides index.toNat (head.size - 1).toNat) leaf path = head.rootHash then
        .ok ()
      else .error .rootMismatch := by
  have hlast := toNat_pred_size h
  have hlength := length_sides_of_lt h
  rw [check, if_neg (UInt64.not_le.mpr h), climb_eq_walk,
    show head.size.toNat - 1 = (head.size - 1).toNat by omega, walk_eq, hlength]
  congr 1
  by_cases hshort : path.length < pathLength index.toNat head.size.toNat
  · rw [if_pos hshort, if_pos hshort]
  rw [if_neg hshort, if_neg hshort]
  by_cases hlong : pathLength index.toNat head.size.toNat < path.length
  · have hunused : path.drop (pathLength index.toNat head.size.toNat) ≠ [] := fun hnil =>
      absurd (List.drop_eq_nil_iff.mp hnil) (by omega)
    obtain ⟨unused, rest, hrest⟩ := List.exists_cons_of_ne_nil hunused
    rw [if_pos hlong, ← List.length_drop, hrest]
  · rw [if_neg hlong, List.drop_eq_nil_of_le (by omega)]

/-- What a check answers, for every leaf, index, tree head and path.  For an index in range, the
index of the last leaf is one less than the size, and an empty path is never the right one for
a tree of several leaves. -/
theorem check_eq_verdict
    (leaf : Hash) (index : UInt64) (head : TreeHead) (path : List Hash) :
    let needed := pathLength index.toNat head.size.toNat
    let along := sides index.toNat (head.size - 1).toNat
    (head.size ≤ index ↔
        check join leaf index head path = .error (.indexOutOfRange index head.size)) ∧
      (index < head.size →
        (head.size - 1).toNat + 1 = head.size.toNat ∧
        (1 < head.size → 1 ≤ needed) ∧
        along.length = needed ∧
        check join leaf index head path =
          if path = [] then
            if head.size ≠ 1 then .error (.emptyPath head.size)
            else if leaf = head.rootHash then .ok ()
            else .error .sizeOneMismatch
          else if path.length < needed then .error .pathTooShort
          else if needed < path.length then
            .error (.unusedPathElements (path.length - needed))
          else if reached join along leaf path = head.rootHash then .ok ()
          else .error .rootMismatch) := by
  intro needed along
  constructor
  · constructor
    · intro hrange
      rw [check, if_pos hrange]
    · intro herror
      by_contra hrange
      rw [check_of_lt join (UInt64.not_le.mp hrange)] at herror
      split_ifs at herror <;> cases herror
  · intro hindex
    refine ⟨toNat_pred_size hindex, ?_, length_sides_of_lt hindex, check_of_lt join hindex⟩
    intro hsize
    exact pathLength_pos (UInt64.lt_iff_toNat_lt.mp hindex) (UInt64.lt_iff_toNat_lt.mp hsize)

end

end Merkle

end WitnessedLog
