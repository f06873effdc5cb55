import WitnessedLog.Policy.Compile
import WitnessedLog.Proofs.Fallible
import WitnessedLog.Proofs.Quorum.Presence

/-!
# Rules over numbered witnesses

Before a rule is compiled its witnesses are named by number.  This succeeds for the rules
that have no empty group and name only witnesses that have a number, and it changes nothing
but the names.
-/

namespace WitnessedLog

namespace Quorum

variable {number? : KeyHash → Option Nat}

theorem numbered_group
    (threshold : Nat) (members : List (Quorum KeyHash)) :
    (group threshold members).numbered number? =
      if members.isEmpty then .error .emptyGroup
        else (members.mapM (numbered number?)).map (.group threshold) := by
  rw [numbered, fold_group, ← numbered, List.mapM_map]
  simp only [List.isEmpty_map]
  rfl

/-- A rule without empty groups is renamed if all of its witnesses have numbers. -/
theorem numbered_eq_rename
    {number : KeyHash → Nat} {quorum : Quorum KeyHash}
    (hnonempty : quorum.NoEmptyGroup)
    (hnumber : ∀ name ∈ quorum.names, number? name = some (number name)) :
    quorum.numbered number? = .ok (quorum.rename number) := by
  induction quorum using Quorum.induction with
  | witness name =>
      rw [numbered, fold_witness, hnumber name (by simp)]
      rfl
  | group threshold members ih =>
      obtain ⟨hne, hnonempty⟩ := (noEmptyGroup_group threshold members).mp hnonempty
      have hmembers : ∀ member ∈ members,
          member.numbered number? = .ok (member.rename number) := by
        intro member hmember
        apply ih member hmember (hnonempty member hmember)
        intro name hname
        exact hnumber name (mem_names_group hmember hname)
      rw [numbered_group, if_neg (by simpa using hne), mapM_eq_ok_map hmembers, rename_group]
      rfl

/-- A rule with an empty group is refused for it if all of its witnesses have numbers. -/
theorem numbered_eq_emptyGroup
    {number : KeyHash → Nat} {quorum : Quorum KeyHash}
    (hempty : ¬quorum.NoEmptyGroup)
    (hnumber : ∀ name ∈ quorum.names, number? name = some (number name)) :
    quorum.numbered number? = .error .emptyGroup := by
  induction quorum using Quorum.induction with
  | witness name => exact absurd trivial hempty
  | group threshold members ih =>
      rw [numbered_group]
      by_cases hnil : members = []
      · rw [hnil]
        rfl
      have hmember : ∀ member ∈ members, ∀ name ∈ member.names,
          number? name = some (number name) := fun member hmember name hname =>
        hnumber name (mem_names_group hmember hname)
      have hall : ∀ member ∈ members, (∃ numbers, member.numbered number? = .ok numbers) ∨
          member.numbered number? = .error .emptyGroup := by
        intro member hmem
        by_cases hnonempty : member.NoEmptyGroup
        · exact Or.inl ⟨_, numbered_eq_rename hnonempty (hmember member hmem)⟩
        · exact Or.inr (ih member hmem hnonempty (hmember member hmem))
      have hfails : ∃ member ∈ members, member.numbered number? = .error .emptyGroup := by
        apply Classical.byContradiction
        intro hnone
        apply hempty
        rw [noEmptyGroup_group]
        refine ⟨hnil, ?_⟩
        intro member hmem
        apply Classical.byContradiction
        intro hmemberEmpty
        exact hnone ⟨member, hmem, ih member hmem hmemberEmpty (hmember member hmem)⟩
      rw [if_neg (by simpa using hnil), mapM_eq_error hall hfails]
      rfl

/-- Only rules without empty groups are numbered. -/
theorem noEmptyGroup_of_numbered
    {quorum : Quorum KeyHash} {numbers : Quorum Nat}
    (h : quorum.numbered number? = .ok numbers) :
    quorum.NoEmptyGroup := by
  induction quorum using Quorum.induction generalizing numbers with
  | witness name => trivial
  | group threshold members ih =>
      rw [numbered_group] at h
      by_cases hempty : members.isEmpty
      · rw [if_pos hempty] at h
        cases h
      · rw [if_neg hempty] at h
        cases hmap : members.mapM (numbered number?) with
        | error e =>
            rw [hmap] at h
            cases h
        | ok values =>
            rw [noEmptyGroup_group]
            refine ⟨by simpa using hempty, ?_⟩
            intro member hmember
            obtain ⟨value, hvalue⟩ := exists_ok_of_mapM_eq_ok hmap member hmember
            exact ih member hmember hvalue

end Quorum

end WitnessedLog
