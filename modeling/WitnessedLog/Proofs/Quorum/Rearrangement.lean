import Mathlib.Data.List.Forall2
import WitnessedLog.Proofs.Quorum.Presence
import WitnessedLog.Quorum.Reordering

/-!
# Rearranging the members of groups

A value that is computed from the members of each group without regard to their order is the
same for all reorderings of a rule.  Any permutation of the members of a group, and any
reordering of each of them, is a reordering of the rule.  Naming the witnesses otherwise
changes neither what is a reordering nor which groups have one member.
-/

namespace WitnessedLog

namespace Quorum

variable {ω ω' β : Type} {a b : Quorum ω}

/-- Evaluating rules from their leaves up gives the same for reorderings if it does for
permutations of the members of one group. -/
theorem Reordered.fold_eq
    {leaf : ω → β} {node : Nat → List β → β}
    (hnode : ∀ threshold {values values' : List β}, values.Perm values' →
      node threshold values = node threshold values')
    (h : Reordered a b) :
    fold leaf node a = fold leaf node b := by
  induction h with
  | refl quorum => rfl
  | trans _ _ ihab ihbc => exact ihab.trans ihbc
  | swap threshold front a b back =>
      rw [fold_group, fold_group]
      apply hnode
      exact (List.Perm.append_left front (List.Perm.swap b a back)).map _
  | member threshold front back _ ih =>
      rw [fold_group, fold_group, List.map_append, List.map_append, List.map_cons, List.map_cons,
        ih]

theorem Reordered.symm
    (h : Reordered a b) : Reordered b a := by
  induction h with
  | refl quorum => exact .refl quorum
  | trans _ _ ihab ihbc => exact ihbc.trans ihab
  | swap threshold front a b back => exact .swap threshold front b a back
  | member threshold front back _ ih => exact .member threshold front back ih

/-- Reordering a rule and naming its witnesses otherwise do not interfere. -/
theorem Reordered.rename
    (h : Reordered a b) (naming : ω → ω') : Reordered (a.rename naming) (b.rename naming) := by
  induction h with
  | refl quorum => exact .refl _
  | trans _ _ ihab ihbc => exact ihab.trans ihbc
  | swap threshold front a b back =>
      simp only [rename_group, List.map_append, List.map_cons]
      exact .swap threshold _ _ _ _
  | member threshold front back _ ih =>
      simp only [rename_group, List.map_append, List.map_cons]
      exact .member threshold _ _ ih

theorem Reordered.noEmptyGroup_iff
    (h : Reordered a b) : a.NoEmptyGroup ↔ b.NoEmptyGroup := by
  apply iff_of_eq
  apply h.fold_eq
  intro _ results results' hperm
  have hnil : results = [] ↔ results' = [] := by
    rw [← List.length_eq_zero_iff, ← List.length_eq_zero_iff, hperm.length_eq]
  have hall : (∀ result ∈ results, result) ↔ ∀ result ∈ results', result :=
    forall_congr' fun result => imp_congr_left hperm.mem_iff
  exact propext (and_congr (not_congr hnil) hall)

/-! ## Whole groups -/

theorem Reordered.of_perm_behind
    {members members' : List (Quorum ω)}
    (threshold : Nat) (front : List (Quorum ω)) (h : members.Perm members') :
    Reordered (.group threshold (front ++ members)) (.group threshold (front ++ members')) := by
  induction h generalizing front with
  | nil => exact .refl _
  | cons member _ ih =>
      have hbehind := ih (front ++ [member])
      rwa [List.append_assoc, List.append_assoc] at hbehind
  | swap a b back => exact .swap threshold front b a back
  | trans _ _ ihab ihbc => exact (ihab front).trans (ihbc front)

/-- The members of a group may be permuted. -/
theorem Reordered.of_perm
    {members members' : List (Quorum ω)}
    (threshold : Nat) (h : members.Perm members') :
    Reordered (.group threshold members) (.group threshold members') :=
  of_perm_behind threshold [] h

theorem Reordered.of_forall₂_behind
    {members members' : List (Quorum ω)}
    (threshold : Nat) (front : List (Quorum ω)) (h : List.Forall₂ Reordered members members') :
    Reordered (.group threshold (front ++ members)) (.group threshold (front ++ members')) := by
  induction h generalizing front with
  | nil => exact .refl _
  | @cons member member' members members' hmember _ ih =>
      have hfirst : Reordered (.group threshold (front ++ member :: members))
          (.group threshold (front ++ member' :: members)) :=
        .member threshold front members hmember
      have hbehind := ih (front ++ [member'])
      rw [List.append_assoc, List.append_assoc] at hbehind
      exact hfirst.trans hbehind

/-- Each member of a group may be reordered. -/
theorem Reordered.of_forall₂
    {members members' : List (Quorum ω)}
    (threshold : Nat) (h : List.Forall₂ Reordered members members') :
    Reordered (.group threshold members) (.group threshold members') :=
  of_forall₂_behind threshold [] h

/-! ## Groups of one member -/

theorem unwrapped_lone
    (threshold : Nat) (member : Quorum ω) :
    (group threshold [member]).unwrapped = member.unwrapped := by
  rw [unwrapped, fold_group]
  rfl

theorem unwrapped_of_length_ne_one
    (threshold : Nat) {members : List (Quorum ω)}
    (h : members.length ≠ 1) :
    (group threshold members).unwrapped = .group threshold (members.map unwrapped) := by
  rw [unwrapped, fold_group]
  match members, h with
  | [], _ => rfl
  | _ :: _ :: _, _ => rfl

/-- Removing groups of one member and naming witnesses otherwise do not interfere. -/
theorem unwrapped_rename
    (naming : ω → ω') (quorum : Quorum ω) :
    (quorum.rename naming).unwrapped = quorum.unwrapped.rename naming := by
  induction quorum using Quorum.induction with
  | witness name => rfl
  | group threshold members ih =>
      rw [rename_group]
      by_cases hlone : members.length = 1
      · obtain ⟨member, rfl⟩ := List.length_eq_one_iff.mp hlone
        rw [List.map_singleton, unwrapped_lone, unwrapped_lone]
        exact ih member (by simp)
      · have hlone' : (members.map (rename naming)).length ≠ 1 := by rwa [List.length_map]
        rw [unwrapped_of_length_ne_one threshold hlone,
          unwrapped_of_length_ne_one threshold hlone', rename_group, List.map_map, List.map_map]
        exact congrArg (group threshold) (List.map_congr_left ih)

end Quorum

end WitnessedLog
