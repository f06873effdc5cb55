import Mathlib.Data.List.Sort
import WitnessedLog.Proofs.Program.Verdict
import WitnessedLog.Proofs.Quorum.Rearrangement

/-!
# The order of blocks

Blocks are ordered by their length and then by their bytes.  The order is linear, so the
blocks of a group have only one ordered sequence, and the program for a rule is the same for
all of its reorderings.
-/

namespace WitnessedLog

namespace Program

theorem blockBefore_iff
    {a b : Bytes} :
    blockBefore a b = true ↔ a.length < b.length ∨ (a.length = b.length ∧ a ≤ b) := by
  simp [blockBefore]

instance : Std.Total (fun a b : Bytes => blockBefore a b = true) where
  total := by
    intro a b
    rw [blockBefore_iff, blockBefore_iff]
    rcases Nat.lt_trichotomy a.length b.length with hlt | heq | hgt
    · exact Or.inl (Or.inl hlt)
    · rcases Std.le_total (a := a) (b := b) with hle | hle
      · exact Or.inl (Or.inr ⟨heq, hle⟩)
      · exact Or.inr (Or.inr ⟨heq.symm, hle⟩)
    · exact Or.inr (Or.inl hgt)

instance : IsTrans Bytes (fun a b : Bytes => blockBefore a b = true) where
  trans := by
    intro a b c hab hbc
    rw [blockBefore_iff] at hab hbc ⊢
    rcases hab with hab | ⟨hab, hleab⟩
    · left
      rcases hbc with hbc | ⟨hbc, -⟩
      · exact Nat.lt_trans hab hbc
      · exact hbc ▸ hab
    · rcases hbc with hbc | ⟨hbc, hlebc⟩
      · exact Or.inl (hab ▸ hbc)
      · exact Or.inr ⟨hab.trans hbc, Std.le_trans hleab hlebc⟩

instance : Std.Antisymm (fun a b : Bytes => blockBefore a b = true) where
  antisymm := by
    intro a b hab hba
    rw [blockBefore_iff] at hab hba
    have hlength : a.length = b.length := by omega
    have hle : a ≤ b := (hab.resolve_left (Nat.not_lt_of_ge (Nat.le_of_eq hlength.symm))).2
    have hge : b ≤ a := (hba.resolve_left (Nat.not_lt_of_ge (Nat.le_of_eq hlength))).2
    exact Std.le_antisymm hle hge

theorem insertBlock_eq_orderedInsert
    (block : Bytes) (blocks : List Bytes) :
    insertBlock block blocks =
      blocks.orderedInsert (fun a b => blockBefore a b = true) block := by
  induction blocks with
  | nil => rfl
  | cons first rest ih => rw [insertBlock, List.orderedInsert_cons, ih]

theorem sortBlocks_eq_insertionSort (blocks : List Bytes) :
    sortBlocks blocks = blocks.insertionSort (fun a b => blockBefore a b = true) := by
  induction blocks with
  | nil => rfl
  | cons block blocks ih =>
      rw [List.insertionSort_cons, ← ih, ← insertBlock_eq_orderedInsert]
      rfl

/-- Blocks in order do not depend on the order in which they are given. -/
theorem sortBlocks_eq_of_perm
    {blocks blocks' : List Bytes}
    (h : blocks.Perm blocks') : sortBlocks blocks = sortBlocks blocks' := by
  have hperm : (sortBlocks blocks).Perm (sortBlocks blocks') :=
    (sortBlocks_perm blocks).trans (h.trans (sortBlocks_perm blocks').symm)
  rw [sortBlocks_eq_insertionSort, sortBlocks_eq_insertionSort] at hperm ⊢
  exact hperm.eq_of_pairwise' (List.pairwise_insertionSort _ _) (List.pairwise_insertionSort _ _)

theorem ofGroup_eq_of_perm
    (threshold : Nat) {blocks blocks' : List Bytes}
    (h : blocks.Perm blocks') : ofGroup threshold blocks = ofGroup threshold blocks' := by
  match blocks, h with
  | [], h => rw [h.nil_eq]
  | [block], h => rw [List.singleton_perm.mp h]
  | first :: second :: rest, h =>
      have htwo : 2 ≤ (first :: second :: rest).length := by simp
      have htwo' : 2 ≤ blocks'.length := h.length_eq ▸ htwo
      rw [ofGroup_of_two_le threshold htwo, ofGroup_of_two_le threshold htwo',
        sortBlocks_eq_of_perm h]

/-- The program for a rule is the same for all of its reorderings. -/
theorem ofQuorum_eq_of_reordered
    {a b : Quorum Nat}
    (h : a.Reordered b) : ofQuorum a = ofQuorum b :=
  h.fold_eq fun threshold _ _ hperm => ofGroup_eq_of_perm threshold hperm

end Program

end WitnessedLog
