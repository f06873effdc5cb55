import Mathlib.Data.List.Nodup
import WitnessedLog.Proofs.Policy.RosterKeys
import WitnessedLog.Proofs.Policy.WrittenLines

/-!
# Names to write with

A policy is written with names for its witnesses and for its groups.  They have to be words, differ
from each other and from `none`.  The hashes of the witnesses' keys and the numbers of the groups
give such names for every policy.
-/

namespace WitnessedLog

namespace Policy

/-- The names that a policy is written with. -/
def NameChoice.used (names : NameChoice) (policy : Policy) : List String :=
  policy.witnesses.keys.map names.witness ++
    (List.range (define names policy.quorum 0).next).map names.group

/-- The names that a policy is written with are words, differ from each other, and none of them is
`none`. -/
structure NameChoice.FreshFor (names : NameChoice) (policy : Policy) : Prop where
  isWord : ∀ name ∈ names.used policy, isWord name = true
  nodup : ("none" :: names.used policy).Nodup

variable {policy : Policy} {names : NameChoice}

namespace NameChoice

theorem witness_mem_used
    {witness : KeyHash}
    (h : witness ∈ policy.witnesses.keys) : names.witness witness ∈ names.used policy :=
  List.mem_append_left _ (List.mem_map_of_mem h)

theorem group_mem_used
    {number : Nat}
    (h : number < (define names policy.quorum 0).next) :
    names.group number ∈ names.used policy :=
  List.mem_append_right _ (List.mem_map_of_mem (List.mem_range.mpr h))

theorem FreshFor.ne_none
    (h : names.FreshFor policy) {name : String} (hname : name ∈ names.used policy) :
    name ≠ "none" := by
  rintro rfl
  exact (List.nodup_cons.mp h.nodup).1 hname

theorem FreshFor.nodup_witnesses
    (h : names.FreshFor policy) : (policy.witnesses.keys.map names.witness).Nodup :=
  (List.nodup_append.mp (List.nodup_cons.mp h.nodup).2).1

theorem FreshFor.group_injective
    (h : names.FreshFor policy) :
    ∀ m < (define names policy.quorum 0).next, ∀ n < (define names policy.quorum 0).next,
      names.group m = names.group n → m = n := by
  intro m hm n hn heq
  have hgroups := (List.nodup_append.mp (List.nodup_cons.mp h.nodup).2).2.1
  exact List.inj_on_of_nodup_map hgroups (List.mem_range.mpr hm) (List.mem_range.mpr hn) heq

theorem FreshFor.group_notMem_witnesses
    (h : names.FreshFor policy) {number : Nat}
    (hnumber : number < (define names policy.quorum 0).next) :
    names.group number ∉ policy.witnesses.keys.map names.witness := by
  intro hmem
  have hapart := (List.nodup_append.mp (List.nodup_cons.mp h.nodup).2).2.2
  exact hapart _ hmem _ (List.mem_map_of_mem (List.mem_range.mpr hnumber)) rfl

/-- Names that are fresh for all policies are fresh for each. -/
theorem Fresh.freshFor
    (h : names.Fresh) (policy : Policy) : names.FreshFor policy where
  isWord := by
    refine List.forall_mem_append.mpr ⟨?_, ?_⟩
    · exact List.forall_mem_map.mpr fun witness _ => h.isWord_witness witness
    · exact List.forall_mem_map.mpr fun number _ => h.isWord_group number
  nodup := by
    rw [used, List.nodup_cons, List.mem_append, List.mem_map, List.mem_map, List.nodup_append]
    refine ⟨?_, policy.witnesses.nodup_keys.map fun a b => h.witness_injective a b,
      List.nodup_range.map fun m n => h.group_injective m n, ?_⟩
    · rintro (⟨witness, -, hname⟩ | ⟨number, -, hname⟩)
      · exact h.witness_ne_none witness hname
      · exact h.group_ne_none number hname
    · intro first hfirst second hsecond
      obtain ⟨witness, -, rfl⟩ := List.mem_map.mp hfirst
      obtain ⟨number, -, rfl⟩ := List.mem_map.mp hsecond
      exact h.witness_ne_group witness number

theorem toList_plain_group (number : Nat) :
    (plain.group number).toList = ['g', 'r', 'o', 'u', 'p', '-'] ++ number.repr.toList := by
  rw [plain, String.toList_append]
  rfl

/-- Key hashes name witnesses, and numbers name groups. -/
theorem fresh_plain : plain.Fresh where
  isWord_witness witness := isWord_toHex witness
  isWord_group number := by
    have hletters : ∀ c ∈ ['g', 'r', 'o', 'u', 'p', '-'],
        Text.isBlank c = false ∧ c ≠ '#' := by simp [Text.isBlank]
    obtain ⟨-, hdigits⟩ := isWord_iff.mp (isWord_repr number)
    rw [isWord_iff, ne_eq, ← String.toList_eq_nil_iff, toList_plain_group]
    exact ⟨List.cons_ne_nil _ _, List.forall_mem_append.mpr ⟨hletters, hdigits⟩⟩
  witness_ne_none witness := by
    intro heq
    have hmem : 'n' ∈ (plain.witness witness).toList := heq ▸ by decide
    obtain ⟨nibble, -, hdigit⟩ := Hex.exists_digitChar_of_mem_encode hmem
    exact Nat.digitChar_ne 'n' (by decide) hdigit.symm
  group_ne_none number := by
    intro heq
    have hlist := congrArg String.toList heq
    rw [toList_plain_group] at hlist
    exact absurd (List.cons.inj hlist).1 (by decide)
  witness_injective _ _ h := Octets.toHex_inj h
  group_injective m n h := by
    have hlist := congrArg String.toList h
    rw [toList_plain_group, toList_plain_group] at hlist
    exact Text.repr_inj (String.toList_injective (List.append_cancel_left hlist))
  witness_ne_group witness number := by
    intro heq
    have hmem : 'g' ∈ (plain.witness witness).toList := by
      rw [heq, toList_plain_group]
      exact List.mem_cons_self
    obtain ⟨nibble, -, hdigit⟩ := Hex.exists_digitChar_of_mem_encode hmem
    exact Nat.digitChar_ne 'g' (by decide) hdigit.symm

end NameChoice

end Policy

end WitnessedLog
