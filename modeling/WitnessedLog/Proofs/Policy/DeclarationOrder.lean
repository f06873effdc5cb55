import Mathlib.Data.List.Nodup
import WitnessedLog.Proofs.Policy.CompilerCorrectness
import WitnessedLog.Proofs.Program.BlockOrder

/-!
# Compiling does not depend on the order of declarations

The keys of a policy are written in the order of their hashes and the blocks of a group in
the order of blocks, so neither the order in which logs and witnesses were declared nor the
order in which groups list their members shows in the compiled form.  Where no compiled form
exists, policies that differ in nothing else are refused alike.
-/

namespace WitnessedLog

namespace Roster

variable {roster roster' : Roster}

theorem pairwise_publicKeys (roster : Roster) :
    roster.publicKeys.Pairwise (fun a b => keyHash a < keyHash b) :=
  List.pairwise_map.mp roster.ascendingKeys_publicKeys

theorem nodup_publicKeys (roster : Roster) : roster.publicKeys.Nodup :=
  (Octets.nodup_of_pairwise_lt roster.ascendingKeys_publicKeys).of_map

/-- Rosters of the same keys list them alike. -/
theorem publicKeys_eq_of_mem_iff
    (h : ∀ key, key ∈ roster.publicKeys ↔ key ∈ roster'.publicKeys) :
    roster.publicKeys = roster'.publicKeys := by
  have hperm : roster.publicKeys.Perm roster'.publicKeys :=
    (List.perm_ext_iff_of_nodup roster.nodup_publicKeys roster'.nodup_publicKeys).mpr h
  refine hperm.eq_of_pairwise ?_ roster.pairwise_publicKeys roster'.pairwise_publicKeys
  intro a b _ _ hab hba
  exact absurd hba (Octets.lt_asymm hab)

end Roster

namespace Policy

variable {p q : Policy}

/-- Quorums that are reorderings of each other have the same program, or are refused alike,
if their policies have the same witnesses. -/
theorem program_eq_of_reordered
    (hwitnesses : p.witnesses.publicKeys = q.witnesses.publicKeys)
    (h : p.quorum.Reordered q.quorum) :
    (p.quorum.numbered p.witnesses.position?).map Program.ofQuorum =
      (q.quorum.numbered q.witnesses.position?).map Program.ofQuorum := by
  have hnumber := witnessNumber_eq_of_publicKeys_eq hwitnesses
  by_cases hp : p.quorum.NoEmptyGroup
  · have hq : q.quorum.NoEmptyGroup := h.noEmptyGroup_iff.mp hp
    rw [Quorum.numbered_eq_rename hp fun _ => position?_eq_some_witnessNumber,
      Quorum.numbered_eq_rename hq fun _ => position?_eq_some_witnessNumber, hnumber]
    exact congrArg Except.ok (Program.ofQuorum_eq_of_reordered (h.rename _))
  · have hq : ¬q.quorum.NoEmptyGroup := fun hq => hp (h.noEmptyGroup_iff.mpr hq)
    rw [Quorum.numbered_eq_emptyGroup hp fun _ => position?_eq_some_witnessNumber,
      Quorum.numbered_eq_emptyGroup hq fun _ => position?_eq_some_witnessNumber]

/-- The compiled form of a policy is made of its keys and the program of its quorum. -/
theorem compile_congr
    (hlogs : p.logs.publicKeys = q.logs.publicKeys)
    (hwitnesses : p.witnesses.publicKeys = q.witnesses.publicKeys)
    (hprogram : (p.quorum.numbered p.witnesses.position?).map Program.ofQuorum =
      (q.quorum.numbered q.witnesses.position?).map Program.ofQuorum) :
    p.compile = q.compile := by
  rw [compile, compile]
  simp only [Roster.size_eq_of_publicKeys_eq hlogs, Roster.size_eq_of_publicKeys_eq hwitnesses]
  split
  · rfl
  split
  · rfl
  cases hp : p.quorum.numbered p.witnesses.position? with
  | error e =>
      cases hq : q.quorum.numbered q.witnesses.position? with
      | error e' =>
          rw [hp, hq] at hprogram
          cases hprogram
          rfl
      | ok numbers' =>
          rw [hp, hq] at hprogram
          cases hprogram
  | ok numbers =>
      cases hq : q.quorum.numbered q.witnesses.position? with
      | error e' =>
          rw [hp, hq] at hprogram
          cases hprogram
      | ok numbers' =>
          rw [hp, hq] at hprogram
          have hprogram : Program.ofQuorum numbers = Program.ofQuorum numbers' :=
            Except.ok.inj hprogram
          have hsize : Program.size numbers = Program.size numbers' := by
            rw [← Program.length_ofQuorum, hprogram, Program.length_ofQuorum]
          simp only [hsize, hlogs, hwitnesses, hprogram]

/-- Policies with the same logs and the same witnesses whose quorums differ only in the
order of members compile to the same bytes or fail with the same error. -/
theorem compileToBytes_eq_of_reordered
    (hlogs : ∀ key, key ∈ p.logs.publicKeys ↔ key ∈ q.logs.publicKeys)
    (hwitnesses : ∀ key, key ∈ p.witnesses.publicKeys ↔ key ∈ q.witnesses.publicKeys)
    (hquorum : p.quorum.Reordered q.quorum) :
    p.compileToBytes = q.compileToBytes := by
  have hlogs : p.logs.publicKeys = q.logs.publicKeys := Roster.publicKeys_eq_of_mem_iff hlogs
  have hwitnesses : p.witnesses.publicKeys = q.witnesses.publicKeys :=
    Roster.publicKeys_eq_of_mem_iff hwitnesses
  rw [compileToBytes, compileToBytes,
    compile_congr hlogs hwitnesses (program_eq_of_reordered hwitnesses hquorum)]

/-- The sample with its groups listed backwards, inner and outer, and with addresses. -/
def sampleBackwards : Policy where
  logs := {
    entries := [7].map fun b => (keyHash (.replicate b), ⟨.replicate b, some "log.example"⟩)
    ascending := List.pairwise_singleton _ _
    filed := by simp [Entity.name] }
  witnesses := {
    entries := [3, 1, 2].map fun b =>
      (keyHash (.replicate b), ⟨.replicate b, some "witness.example"⟩)
    ascending := by decide +kernel
    filed := by simp [Entity.name] }
  quorum := .group 2 [
    .group 1 [.witness (keyHash (.replicate 1))],
    .group 1 [.witness (keyHash (.replicate 3)), .witness (keyHash (.replicate 2))],
    .witness (keyHash (.replicate 1))]
  wellFormed := by simp [Quorum.ThresholdFits]
  closed := by decide +kernel

theorem reordered_sampleBackwards : sample.quorum.Reordered sampleBackwards.quorum := by
  have hinner : Quorum.Reordered
      (.group 1 [.witness (keyHash (.replicate 2)), .witness (keyHash (.replicate 3))])
      (.group 1 [.witness (keyHash (.replicate 3)), .witness (keyHash (.replicate 2))]) :=
    .swap 1 [] _ _ []
  exact (Quorum.Reordered.member 2 [_] [_] hinner).trans
    (.of_perm 2 (List.reverse_perm _).symm)

theorem compileToBytes_sampleBackwards :
    (∀ key, key ∈ sample.logs.publicKeys ↔ key ∈ sampleBackwards.logs.publicKeys) ∧
      (∀ key, key ∈ sample.witnesses.publicKeys ↔ key ∈ sampleBackwards.witnesses.publicKeys) ∧
      sample.quorum.Reordered sampleBackwards.quorum ∧
      sample.compileToBytes = sampleBackwards.compileToBytes :=
  have hlogs : ∀ key, key ∈ sample.logs.publicKeys ↔ key ∈ sampleBackwards.logs.publicKeys :=
    fun _ => Iff.rfl
  have hwitnesses : ∀ key,
      key ∈ sample.witnesses.publicKeys ↔ key ∈ sampleBackwards.witnesses.publicKeys :=
    fun _ => Iff.rfl
  ⟨hlogs, hwitnesses, reordered_sampleBackwards,
    compileToBytes_eq_of_reordered hlogs hwitnesses reordered_sampleBackwards⟩

end Policy

end WitnessedLog
