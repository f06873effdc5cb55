import Mathlib.Algebra.Order.Group.Nat
import WitnessedLog.Merkle.Joined

/-!
# The sides of a climb

Which way a climb turns depends on the indices alone.  On each level the node is a left child
or a right child, or it is carried up, so the sides of the nodes that are joined are known
before any node is.  A climb is a walk along this list of sides.
-/

namespace WitnessedLog

namespace Merkle

/-- The side on which a node stands when it is joined with its sibling. -/
inductive Side where
  | left
  | right

/-- A node and its sibling, in the order in which they are joined. -/
def Side.pair (node sibling : Hash) : Side → Hash × Hash
  | .left => (node, sibling)
  | .right => (sibling, node)

/-- The sides of the nodes on the way up that have a sibling, from the bottom up. -/
def sides (index last : Nat) : List Side :=
  if last = 0 then []
  else if index % 2 = 1 then .right :: sides (index / 2) (last / 2)
  else if index < last then .left :: sides (index / 2) (last / 2)
  else sides (index / 2) (last / 2)
termination_by last

section

variable (join : Hash → Hash → Hash)

/-- Walk up from a node along sides, with one sibling for each of them.  The answer is the
node reached and what is left of the path. -/
def walk : List Side → Hash → List Hash → Except InclusionError (Hash × List Hash)
  | [], node, path => .ok (node, path)
  | _ :: _, _, [] => .error .pathTooShort
  | side :: above, node, sibling :: path =>
    let pair := side.pair node sibling
    walk above (join pair.1 pair.2) path

/-- The pairs that are joined on a walk, as long as its path lasts. -/
def walkPairs : List Side → Hash → List Hash → List (Hash × Hash)
  | side :: above, node, sibling :: path =>
    let pair := side.pair node sibling
    pair :: walkPairs above (join pair.1 pair.2) path
  | _, _, _ => []

@[simp] theorem walkPairs_nil
    (node : Hash) (path : List Hash) : walkPairs join [] node path = [] := by
  cases path with
  | nil => rfl
  | cons sibling path => rfl

/-! ## Climbs are walks -/

theorem climb_eq_walk
    (index last : Nat) (node : Hash) (path : List Hash) :
    climb join index last node path = walk join (sides index last) node path := by
  induction index, last using sides.induct generalizing node path with
  | case1 index =>
      rw [climb.eq_def, sides]
      rfl
  | case2 index last hlast hodd ih =>
      rw [climb.eq_def, sides, if_neg hlast, if_neg hlast, if_pos hodd, if_pos hodd]
      cases path with
      | nil => rfl
      | cons sibling rest => exact ih _ _
  | case3 index last hlast hodd hlt ih =>
      rw [climb.eq_def, sides, if_neg hlast, if_neg hlast, if_neg hodd, if_neg hodd, if_pos hlt,
        if_pos hlt]
      cases path with
      | nil => rfl
      | cons sibling rest => exact ih _ _
  | case4 index last hlast hodd hlt ih =>
      rw [climb.eq_def, sides, if_neg hlast, if_neg hlast, if_neg hodd, if_neg hodd, if_neg hlt,
        if_neg hlt]
      exact ih _ _

theorem climbPairs_eq_walkPairs
    (index last : Nat) (node : Hash) (path : List Hash) :
    climbPairs join index last node path = walkPairs join (sides index last) node path := by
  induction index, last using sides.induct generalizing node path with
  | case1 index =>
      rw [climbPairs.eq_def, sides]
      rfl
  | case2 index last hlast hodd ih =>
      rw [climbPairs.eq_def, sides, if_neg hlast, if_neg hlast, if_pos hodd, if_pos hodd]
      cases path with
      | nil => rfl
      | cons sibling rest => exact congrArg _ (ih _ _)
  | case3 index last hlast hodd hlt ih =>
      rw [climbPairs.eq_def, sides, if_neg hlast, if_neg hlast, if_neg hodd, if_neg hodd,
        if_pos hlt, if_pos hlt]
      cases path with
      | nil => rfl
      | cons sibling rest => exact congrArg _ (ih _ _)
  | case4 index last hlast hodd hlt ih =>
      rw [climbPairs.eq_def, sides, if_neg hlast, if_neg hlast, if_neg hodd, if_neg hodd,
        if_neg hlt, if_neg hlt]
      exact ih _ _

/-! ## Walks in two parts -/

theorem walk_append
    (below above : List Side) (node : Hash) (path : List Hash) :
    walk join (below ++ above) node path =
      walk join below node path >>= fun (top, rest) => walk join above top rest := by
  induction below generalizing node path with
  | nil => rfl
  | cons side below ih =>
      cases path with
      | nil => rfl
      | cons sibling path => exact ih _ _

/-- The pairs of a walk whose first part reaches a node are those of the first part and then
those of the walk from that node. -/
theorem walkPairs_append_of_walk
    {join : Hash → Hash → Hash} {below : List Side} {node top : Hash} {path rest : List Hash}
    (h : walk join below node path = .ok (top, rest)) (above : List Side) :
    walkPairs join (below ++ above) node path =
      walkPairs join below node path ++ walkPairs join above top rest := by
  induction below generalizing node path with
  | nil =>
      cases h
      rw [List.nil_append, walkPairs_nil, List.nil_append]
  | cons side below ih =>
      cases path with
      | nil => cases h
      | cons sibling path => exact congrArg _ (ih h)

/-- A walk uses one element of its path for each side. -/
theorem length_of_walk
    {join : Hash → Hash → Hash} {along : List Side} {node top : Hash} {path rest : List Hash}
    (h : walk join along node path = .ok (top, rest)) :
    path.length = along.length + rest.length := by
  induction along generalizing node path with
  | nil =>
      cases h
      exact (Nat.zero_add _).symm
  | cons side above ih =>
      cases path with
      | nil => cases h
      | cons sibling path =>
          have hrest := ih h
          rw [List.length_cons, List.length_cons, hrest]
          omega

end

/-! ## The sides of a whole tree -/

@[simp] theorem sides_zero (index : Nat) : sides index 0 = [] := by
  rw [sides, if_pos rfl]

theorem sides_of_odd
    {index last : Nat}
    (hlast : 0 < last) (hodd : index % 2 = 1) :
    sides index last = .right :: sides (index / 2) (last / 2) := by
  rw [sides, if_neg (by omega), if_pos hodd]

theorem sides_of_even_of_lt
    {index last : Nat}
    (heven : index % 2 = 0) (hlt : index < last) :
    sides index last = .left :: sides (index / 2) (last / 2) := by
  rw [sides, if_neg (by omega), if_neg (by omega), if_pos hlt]

theorem sides_of_even_of_le
    {index last : Nat}
    (hlast : 0 < last) (heven : index % 2 = 0) (hle : last ≤ index) :
    sides index last = sides (index / 2) (last / 2) := by
  rw [sides, if_neg (by omega), if_neg (by omega), if_neg (by omega)]

theorem sides_zero_one : sides 0 1 = [.left] := by
  rw [sides_of_even_of_lt (Nat.zero_mod 2) Nat.one_pos, sides_zero]

theorem sides_one_one : sides 1 1 = [.right] := by
  rw [sides_of_odd Nat.one_pos (Nat.mod_eq_of_lt Nat.one_lt_two), sides_zero]

/-- On the way up to a node above it, a node is joined at least once. -/
theorem sides_ne_nil
    {index last : Nat}
    (hindex : index ≤ last) (hlast : 0 < last) : sides index last ≠ [] := by
  induction index, last using sides.induct with
  | case1 index => exact absurd rfl (Nat.ne_of_gt hlast)
  | case2 index last _ hodd _ =>
      rw [sides_of_odd hlast hodd]
      exact List.cons_ne_nil _ _
  | case3 index last _ hodd hlt _ =>
      rw [sides_of_even_of_lt (by omega) hlt]
      exact List.cons_ne_nil _ _
  | case4 index last _ hodd hlt ih =>
      rw [sides_of_even_of_le hlast (by omega) (by omega)]
      exact ih (by omega) (by omega)

/-- The way up from the left half, which is a full tree, is the way within that half and then
one step from the left. -/
theorem sides_left
    {level index excess : Nat}
    (hindex : index < 2 ^ level) (hexcess : excess < 2 ^ level) :
    sides index (2 ^ level + excess) = sides index (2 ^ level - 1) ++ [.left] := by
  induction level generalizing index excess with
  | zero =>
      have hindex : index = 0 := by omega
      have hexcess : excess = 0 := by omega
      subst hindex hexcess
      have hwithin : sides 0 (2 ^ 0 - 1) = [] := sides_zero 0
      rw [hwithin]
      exact sides_zero_one
  | succ level ih =>
      rw [Nat.pow_succ] at hindex hexcess ⊢
      have hpos : 0 < 2 ^ level := Nat.two_pow_pos level
      have hwhole : (2 ^ level * 2 + excess) / 2 = 2 ^ level + excess / 2 := by omega
      have hhalf : (2 ^ level * 2 - 1) / 2 = 2 ^ level - 1 := by omega
      have habove : sides (index / 2) (2 ^ level + excess / 2) =
          sides (index / 2) (2 ^ level - 1) ++ [.left] := ih (by omega) (by omega)
      rcases Nat.mod_two_eq_zero_or_one index with heven | hodd
      · rw [sides_of_even_of_lt heven (by omega), sides_of_even_of_lt heven (by omega), hwhole,
          hhalf, habove]
        rfl
      · rw [sides_of_odd (by omega) hodd, sides_of_odd (by omega) hodd, hwhole, hhalf, habove]
        rfl

/-- The way up from the right half is the way within that half, on which its last nodes may
be carried up, and then one step from the right. -/
theorem sides_right
    {level index excess : Nat}
    (hindex : index ≤ excess) (hexcess : excess < 2 ^ level) :
    sides (2 ^ level + index) (2 ^ level + excess) = sides index excess ++ [.right] := by
  induction level generalizing index excess with
  | zero =>
      have hexcess : excess = 0 := by omega
      have hindex : index = 0 := by omega
      subst hindex hexcess
      rw [sides_zero]
      exact sides_one_one
  | succ level ih =>
      rw [Nat.pow_succ] at hexcess ⊢
      have hpos : 0 < 2 ^ level := Nat.two_pow_pos level
      have hnode : (2 ^ level * 2 + index) / 2 = 2 ^ level + index / 2 := by omega
      have hlast : (2 ^ level * 2 + excess) / 2 = 2 ^ level + excess / 2 := by omega
      have habove : sides (2 ^ level + index / 2) (2 ^ level + excess / 2) =
          sides (index / 2) (excess / 2) ++ [.right] := ih (by omega) (by omega)
      rcases Nat.mod_two_eq_zero_or_one index with heven | hodd
      · by_cases hlt : index < excess
        · rw [sides_of_even_of_lt (by omega) (by omega), sides_of_even_of_lt heven hlt, hnode,
            hlast, habove]
          rfl
        · rw [sides_of_even_of_le (by omega) (by omega) (by omega), hnode, hlast, habove]
          by_cases hzero : excess = 0
          · have hindex : index = 0 := by omega
            subst hindex hzero
            rfl
          · rw [sides_of_even_of_le (by omega) heven (by omega)]
      · rw [sides_of_odd (by omega) (by omega), sides_of_odd (by omega) hodd, hnode, hlast,
          habove]
        rfl

end Merkle

end WitnessedLog
