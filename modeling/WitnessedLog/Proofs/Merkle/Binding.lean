import WitnessedLog.Proofs.Merkle.Sides

/-!
# Binding of inclusion proofs

Two inclusion proofs for one index and one tree head are the same, unless a collision can be
read off them.  Both walks have the same sides and end in the same root.  Going down from the
root, either the two walks join the same pair at each step, or at some step they join two
different pairs to the same node.
-/

namespace WitnessedLog

namespace Merkle

/-- At one step of two walks, two different pairs are joined to the same node. -/
def CollideAtStep (join : Hash → Hash → Hash) (pairs₁ pairs₂ : List (Hash × Hash)) : Prop :=
  ∃ (step : Nat) (pair₁ pair₂ : Hash × Hash),
    pairs₁[step]? = some pair₁ ∧ pairs₂[step]? = some pair₂ ∧ pair₁ ≠ pair₂ ∧
      join pair₁.1 pair₁.2 = join pair₂.1 pair₂.2

section

variable {join : Hash → Hash → Hash}

theorem CollideAtStep.cons
    {pairs₁ pairs₂ : List (Hash × Hash)}
    (h : CollideAtStep join pairs₁ pairs₂) (pair₁ pair₂ : Hash × Hash) :
    CollideAtStep join (pair₁ :: pairs₁) (pair₂ :: pairs₂) := by
  obtain ⟨step, collided₁, collided₂, h₁, h₂, hne, hjoin⟩ := h
  exact ⟨step + 1, collided₁, collided₂, h₁, h₂, hne, hjoin⟩

/-- A node and its sibling can be told from their pair. -/
theorem Side.pair_inj
    {side : Side} {node₁ sibling₁ node₂ sibling₂ : Hash}
    (h : side.pair node₁ sibling₁ = side.pair node₂ sibling₂) :
    node₁ = node₂ ∧ sibling₁ = sibling₂ := by
  cases side with
  | left =>
      obtain ⟨hnode, hsibling⟩ := Prod.mk.inj h
      exact ⟨hnode, hsibling⟩
  | right =>
      obtain ⟨hsibling, hnode⟩ := Prod.mk.inj h
      exact ⟨hnode, hsibling⟩

/-- Two walks along the same sides to the same node carry the same, or collide. -/
theorem eq_or_collideAtStep_of_walk
    {along : List Side} {node₁ node₂ top : Hash} {path₁ path₂ : List Hash}
    (h₁ : walk join along node₁ path₁ = .ok (top, []))
    (h₂ : walk join along node₂ path₂ = .ok (top, [])) :
    (node₁ = node₂ ∧ path₁ = path₂) ∨
      CollideAtStep join (walkPairs join along node₁ path₁)
        (walkPairs join along node₂ path₂) := by
  induction along generalizing node₁ node₂ path₁ path₂ with
  | nil =>
      cases h₁
      cases h₂
      exact Or.inl ⟨rfl, rfl⟩
  | cons side above ih =>
      cases path₁ with
      | nil => cases h₁
      | cons sibling₁ path₁ =>
          cases path₂ with
          | nil => cases h₂
          | cons sibling₂ path₂ =>
              rcases ih h₁ h₂ with ⟨hjoin, hpath⟩ | hcollide
              · by_cases hpair : side.pair node₁ sibling₁ = side.pair node₂ sibling₂
                · obtain ⟨hnode, hsibling⟩ := Side.pair_inj hpair
                  exact Or.inl ⟨hnode, congrArg₂ List.cons hsibling hpath⟩
                · exact Or.inr ⟨0, _, _, rfl, rfl, hpair, hjoin⟩
              · exact Or.inr (hcollide.cons _ _)

/-- Two climbs with the same indices to the same node carry the same, or collide. -/
theorem eq_or_collideAtStep_of_climb
    {index last : Nat} {node₁ node₂ top : Hash} {path₁ path₂ : List Hash}
    (h₁ : climb join index last node₁ path₁ = .ok (top, []))
    (h₂ : climb join index last node₂ path₂ = .ok (top, [])) :
    (node₁ = node₂ ∧ path₁ = path₂) ∨
      CollideAtStep join (climbPairs join index last node₁ path₁)
        (climbPairs join index last node₂ path₂) := by
  rw [climb_eq_walk] at h₁ h₂
  rw [climbPairs_eq_walkPairs, climbPairs_eq_walkPairs]
  exact eq_or_collideAtStep_of_walk h₁ h₂

/-- A leaf is accepted if its index is in range and its climb ends in the root and leaves
nothing of the path over. -/
theorem check_eq_ok_iff
    {leaf : Hash} {index : UInt64} {head : TreeHead} {path : List Hash} :
    check join leaf index head path = .ok () ↔
      index.toNat < head.size.toNat ∧
        climb join index.toNat (head.size.toNat - 1) leaf path = .ok (head.rootHash, []) := by
  by_cases hrange : head.size ≤ index
  · have hindex : ¬index.toNat < head.size.toNat :=
      Nat.not_lt.mpr (UInt64.le_iff_toNat_le.mp hrange)
    simp [check, hrange, hindex]
  have hindex : index.toNat < head.size.toNat := by
    rwa [UInt64.le_iff_toNat_le, Nat.not_le] at hrange
  rw [check, if_neg hrange, climb_eq_walk, and_iff_right hindex]
  cases path with
  | nil =>
      rw [if_pos rfl]
      by_cases hsize : head.size = 1
      · have hlast : head.size.toNat - 1 = 0 := by
          rw [hsize]
          rfl
        rw [hlast, sides_zero, walk]
        simp [hsize]
      · -- A larger tree has a sibling to be joined, which an empty path does not hold.
        have hone : head.size.toNat ≠ 1 := fun hone => hsize (UInt64.toNat_inj.mp hone)
        obtain ⟨side, above, hsides⟩ :=
          List.exists_cons_of_ne_nil (sides_ne_nil (show index.toNat ≤ head.size.toNat - 1 by omega)
            (by omega))
        simp [hsize, hsides, walk]
  | cons sibling path =>
      rw [if_neg (List.cons_ne_nil _ _)]
      cases hwalk : walk join (sides index.toNat (head.size.toNat - 1)) leaf (sibling :: path) with
      | error e => simp
      | ok reached =>
          obtain ⟨node, rest⟩ := reached
          cases rest with
          | nil => simp
          | cons unused rest => simp

/-- Inclusion proofs are binding: of two leaves accepted with their paths at one index of one
tree head, the paths are equally long, and the leaves and paths are equal unless the two
climbs join different pairs to the same node at some step. -/
theorem check_binding
    {leaf₁ leaf₂ : Hash} {index : UInt64} {head : TreeHead} {path₁ path₂ : List Hash}
    (h₁ : check join leaf₁ index head path₁ = .ok ())
    (h₂ : check join leaf₂ index head path₂ = .ok ()) :
    path₁.length = path₂.length ∧
      ((leaf₁ = leaf₂ ∧ path₁ = path₂) ∨
        CollideAtStep join
          (climbPairs join index.toNat (head.size.toNat - 1) leaf₁ path₁)
          (climbPairs join index.toNat (head.size.toNat - 1) leaf₂ path₂)) := by
  obtain ⟨-, hclimb₁⟩ := check_eq_ok_iff.mp h₁
  obtain ⟨-, hclimb₂⟩ := check_eq_ok_iff.mp h₂
  constructor
  · rw [climb_eq_walk] at hclimb₁ hclimb₂
    rw [length_of_walk hclimb₁, length_of_walk hclimb₂]
  · exact eq_or_collideAtStep_of_climb hclimb₁ hclimb₂

end

/-- If all pairs are joined to one node, any two leaves are accepted, and they collide. -/
theorem check_binding_constant :
    let top := sha256 []
    let join : Hash → Hash → Hash := fun _ _ => top
    let path := [sha256 [2], sha256 [3]]
    check join (sha256 [0]) 1 ⟨3, top⟩ path = .ok () ∧
      check join (sha256 [1]) 1 ⟨3, top⟩ path = .ok () ∧
      CollideAtStep join (climbPairs join 1 2 (sha256 [0]) path)
        (climbPairs join 1 2 (sha256 [1]) path) := by
  intro top join path
  have h₁ : check join (sha256 [0]) 1 ⟨3, top⟩ path = .ok () := by decide +kernel
  have h₂ : check join (sha256 [1]) 1 ⟨3, top⟩ path = .ok () := by decide +kernel
  have hne : sha256 [0] ≠ sha256 [1] := by decide +kernel
  exact ⟨h₁, h₂, (check_binding h₁ h₂).2.resolve_left fun heq => hne heq.1⟩

end Merkle

end WitnessedLog
