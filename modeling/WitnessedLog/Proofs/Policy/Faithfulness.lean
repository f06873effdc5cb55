import WitnessedLog.Proofs.Policy.CompilerCorrectness
import WitnessedLog.Proofs.Program.Decompiling

/-!
# Compiled policies are faithful

The compiled form of a policy determines its keys and, up to the order of members and to
groups of one member, its quorum.  The bytes are read back as keys and a program, the
program is decompiled to a rule over numbers, and the numbers are turned back into key
hashes.
-/

namespace WitnessedLog

namespace Policy

/-- The witness to which the program of a compiled policy refers by a number. -/
def witnessOfNumber (policy : Policy) (id : Nat) : KeyHash :=
  ((policy.witnesses.publicKeys[id]?).map keyHash).getD (.replicate 0)

theorem witnessOfNumber_witnessNumber
    {policy : Policy} {name : KeyHash}
    (hname : name ∈ policy.quorum.names) :
    policy.witnessOfNumber (policy.witnessNumber name) = name := by
  obtain ⟨id, key, hid, hkey, hhash⟩ :=
    policy.witnesses.exists_position?_eq_some (policy.closed name hname)
  rw [witnessNumber, hid, Option.getD_some, witnessOfNumber, hkey, Option.map_some,
    Option.getD_some, hhash]

/-- The quorum is recovered from what is compiled. -/
theorem rename_witnessOfNumber
    (policy : Policy) :
    (policy.quorum.rename policy.witnessNumber).rename policy.witnessOfNumber = policy.quorum :=
  Quorum.rename_rename_eq_self fun _ => witnessOfNumber_witnessNumber

/-- Policies with the same witnesses and the same program have the same quorum, up to the
order of members and to groups of one member. -/
theorem unwrapped_reordered_of_program_eq
    {p q : Policy} {numbers numbers' : Quorum Nat}
    (hp : p.quorum.numbered p.witnesses.position? = .ok numbers)
    (hq : q.quorum.numbered q.witnesses.position? = .ok numbers')
    (hwitnesses : p.witnesses.publicKeys = q.witnesses.publicKeys)
    (hprogram : Program.ofQuorum numbers = Program.ofQuorum numbers') :
    p.quorum.unwrapped.Reordered q.quorum.unwrapped := by
  have hnonempty : numbers.NoEmptyGroup := by
    rw [numbers_eq_rename hp]
    exact Quorum.noEmptyGroup_rename _ (Quorum.noEmptyGroup_of_numbered hp)
  have hnonempty' : numbers'.NoEmptyGroup := by
    rw [numbers_eq_rename hq]
    exact Quorum.noEmptyGroup_rename _ (Quorum.noEmptyGroup_of_numbered hq)
  have hback : p.witnessOfNumber = q.witnessOfNumber := by
    funext id
    rw [witnessOfNumber, witnessOfNumber, hwitnesses]
  have hnumbers : (numbers.rename p.witnessOfNumber).unwrapped.Reordered
      (numbers'.rename q.witnessOfNumber).unwrapped := by
    rw [Quorum.unwrapped_rename, Quorum.unwrapped_rename, hback]
    exact (Program.unwrapped_reordered_of_ofQuorum_eq hnonempty hnonempty' hprogram).rename _
  rwa [numbers_eq_rename hp, numbers_eq_rename hq, rename_witnessOfNumber,
    rename_witnessOfNumber] at hnumbers

/-- Policies with the same compiled form have the same logs, the same witnesses, and quorums
that differ only in the order of members and in groups of one member. -/
theorem eq_of_compileToBytes_eq_ok
    {p q : Policy} {bytes : Bytes}
    (hp : p.compileToBytes = .ok bytes) (hq : q.compileToBytes = .ok bytes) :
    p.logs.publicKeys = q.logs.publicKeys ∧
      p.witnesses.publicKeys = q.witnesses.publicKeys ∧
      p.quorum.unwrapped.Reordered q.quorum.unwrapped := by
  obtain ⟨compiled, hcompile, hbytes⟩ := compileToBytes_eq_ok hp
  obtain ⟨compiled', hcompile', hbytes'⟩ := compileToBytes_eq_ok hq
  have hsame : compiled = compiled' := CompiledPolicy.toBytes_inj (hbytes.symm.trans hbytes')
  subst hsame
  obtain ⟨numbers, hnumbers, -, hlogs, hwitnesses, hprogram⟩ := compile_eq_ok hcompile
  obtain ⟨numbers', hnumbers', -, hlogs', hwitnesses', hprogram'⟩ := compile_eq_ok hcompile'
  have hkeys : p.witnesses.publicKeys = q.witnesses.publicKeys := hwitnesses.symm.trans hwitnesses'
  refine ⟨hlogs.symm.trans hlogs', hkeys, ?_⟩
  exact unwrapped_reordered_of_program_eq hnumbers hnumbers' hkeys (hprogram.symm.trans hprogram')

/-- The sample with the witness that counts twice listed without its group and the two that
stand in for each other exchanged and wrapped once more. -/
def sampleRewrapped : Policy where
  logs := sample.logs
  witnesses := sample.witnesses
  quorum := .group 2 [
    .group 1 [.group 1 [.witness (keyHash (.replicate 3)), .witness (keyHash (.replicate 2))]],
    .witness (keyHash (.replicate 1)),
    .witness (keyHash (.replicate 1))]
  wellFormed := by simp [Quorum.ThresholdFits]
  closed := by decide +kernel

theorem compileToBytes_sampleRewrapped : sampleRewrapped.compileToBytes = .ok sampleBytes := by
  decide +kernel

theorem eq_of_compileToBytes_sampleRewrapped :
    sample.compileToBytes = .ok sampleBytes ∧
      sampleRewrapped.compileToBytes = .ok sampleBytes ∧
      sample.logs.publicKeys = sampleRewrapped.logs.publicKeys ∧
      sample.witnesses.publicKeys = sampleRewrapped.witnesses.publicKeys ∧
      sample.quorum.unwrapped.Reordered sampleRewrapped.quorum.unwrapped :=
  ⟨compileToBytes_sample, compileToBytes_sampleRewrapped,
    eq_of_compileToBytes_eq_ok compileToBytes_sample compileToBytes_sampleRewrapped⟩

end Policy

end WitnessedLog
