import WitnessedLog.Proofs.CompiledPolicy.RoundTrip
import WitnessedLog.Proofs.Policy.RosterKeys
import WitnessedLog.Proofs.Program.Verdict
import WitnessedLog.Proofs.Quorum.Numbering

/-!
# Compiled policies decide as the policies they come from

A policy that has a compiled form is read back from its bytes with the same keys, and its
quorum program holds for what was found for the witnesses exactly when its quorum is
satisfied by them.
-/

namespace WitnessedLog

/-- What is found for the witnesses of a compiled policy when those that are present
cosigned. -/
def CompiledPolicy.marks (policy : CompiledPolicy) (present : KeyHash → Bool) : Bytes :=
  policy.witnesses.map (fun key => if present (keyHash key) then 1 else 0)

/-- The value that repeats one byte. -/
def Octets.replicate {role : Role} (b : UInt8) : Octets role :=
  ⟨List.replicate role.size b, List.length_replicate⟩

namespace Policy

/-- Everything that a compiled form owes to its policy. -/
theorem compile_eq_ok
    {policy : Policy} {compiled : CompiledPolicy}
    (h : policy.compile = .ok compiled) :
    ∃ numbers, policy.quorum.numbered policy.witnesses.position? = .ok numbers ∧
      Program.size numbers ≤ 255 ∧
      compiled.logs = policy.logs.publicKeys ∧
      compiled.witnesses = policy.witnesses.publicKeys ∧
      compiled.program = Program.ofQuorum numbers := by
  unfold compile at h
  split at h
  · cases h
  · split at h
    · cases h
    · split at h
      · cases h
      · rename_i numbers hnumbers
        split at h
        · cases h
        · rename_i hsize
          cases h
          exact ⟨numbers, hnumbers, by omega, rfl, rfl, rfl⟩

theorem compileToBytes_eq_ok
    {policy : Policy} {bytes : Bytes}
    (h : policy.compileToBytes = .ok bytes) :
    ∃ compiled, policy.compile = .ok compiled ∧ bytes = compiled.toBytes := by
  rw [compileToBytes] at h
  cases hcompile : policy.compile with
  | error e =>
      rw [hcompile] at h
      cases h
  | ok compiled =>
      rw [hcompile] at h
      cases h
      exact ⟨compiled, rfl, rfl⟩

/-- The compiled form is what is read from the bytes. -/
theorem compile_eq_ok_of_ofBytes
    {policy : Policy} {bytes : Bytes} {compiled : CompiledPolicy}
    (hbytes : policy.compileToBytes = .ok bytes)
    (hcompiled : CompiledPolicy.ofBytes bytes = .ok compiled) :
    policy.compile = .ok compiled := by
  obtain ⟨original, hcompile, rfl⟩ := compileToBytes_eq_ok hbytes
  rw [CompiledPolicy.ofBytes_toBytes] at hcompiled
  cases hcompiled
  exact hcompile

/-- The number by which the program of a compiled policy refers to a witness. -/
def witnessNumber (policy : Policy) (name : KeyHash) : Nat :=
  (policy.witnesses.position? name).getD 0

theorem position?_eq_some_witnessNumber
    {policy : Policy} {name : KeyHash}
    (hname : name ∈ policy.quorum.names) :
    policy.witnesses.position? name = some (policy.witnessNumber name) := by
  obtain ⟨id, key, hid, -, -⟩ :=
    policy.witnesses.exists_position?_eq_some (policy.closed name hname)
  rw [witnessNumber, hid, Option.getD_some]

theorem witnessNumber_eq_of_publicKeys_eq
    {p q : Policy}
    (h : p.witnesses.publicKeys = q.witnesses.publicKeys) : p.witnessNumber = q.witnessNumber := by
  funext name
  rw [witnessNumber, witnessNumber, Roster.position?_eq_of_publicKeys_eq h]

/-- What is compiled is the quorum with its witnesses renamed to their numbers. -/
theorem numbers_eq_rename
    {policy : Policy} {numbers : Quorum Nat}
    (h : policy.quorum.numbered policy.witnesses.position? = .ok numbers) :
    numbers = policy.quorum.rename policy.witnessNumber := by
  rw [Quorum.numbered_eq_rename (Quorum.noEmptyGroup_of_numbered h) fun _ =>
    position?_eq_some_witnessNumber] at h
  exact (Except.ok.inj h).symm

/-- At the number of a witness of the quorum stands the mark for that witness. -/
theorem getElem?_marks_witnessNumber
    {policy : Policy} {compiled : CompiledPolicy} {name : KeyHash}
    (hwitnesses : compiled.witnesses = policy.witnesses.publicKeys)
    (hname : name ∈ policy.quorum.names) (present : KeyHash → Bool) :
    (compiled.marks present)[policy.witnessNumber name]? =
      some (Program.verdictByte (present name)) := by
  obtain ⟨id, key, hid, hkey, hhash⟩ :=
    policy.witnesses.exists_position?_eq_some (policy.closed name hname)
  rw [witnessNumber, hid, Option.getD_some, CompiledPolicy.marks, hwitnesses, List.getElem?_map,
    hkey, Option.map_some, hhash]
  rfl

/-- The program of a compiled policy holds when the quorum is satisfied. -/
theorem evaluate_marks
    {policy : Policy} {compiled : CompiledPolicy}
    (h : policy.compile = .ok compiled) (present : KeyHash → Bool) :
    compiled.evaluate (compiled.marks present) = policy.isQuorum present := by
  obtain ⟨numbers, hnumbers, hsize, -, hwitnesses, hprogram⟩ := compile_eq_ok h
  have hnonempty := Quorum.noEmptyGroup_of_numbered hnumbers
  have hrename := numbers_eq_rename hnumbers
  have hmark : ∀ name ∈ policy.quorum.names,
      (compiled.marks present)[policy.witnessNumber name]? =
        some (Program.verdictByte (present name)) := fun name hname =>
    getElem?_marks_witnessNumber hwitnesses hname present
  -- By number, a witness is present if its mark says so.
  have hsettles : Program.Settles compiled.witnesses.length (compiled.marks present)
      compiled.program (numbers.isSatisfied fun id => (compiled.marks present)[id]? == some 1) := by
    rw [hprogram]
    apply Program.settles_ofQuorum
    · exact hrename ▸ Quorum.wellFormed_rename _ policy.wellFormed
    · exact hrename ▸ Quorum.noEmptyGroup_rename _ hnonempty
    · exact hsize
    · exact compiled.length_witnesses
    · intro id hid
      rw [hrename, Quorum.names_rename] at hid
      obtain ⟨name, hname, rfl⟩ := List.mem_map.mp hid
      refine ⟨?_, ?_⟩
      · have hlt := (List.getElem?_eq_some_iff.mp (hmark name hname)).1
        rwa [CompiledPolicy.marks, List.length_map] at hlt
      · rw [hmark name hname]
        cases present name <;> rfl
  rw [CompiledPolicy.evaluate, hsettles.holds_eq, hrename, Quorum.isSatisfied_rename, isQuorum]
  apply Quorum.isSatisfied_congr_names
  intro name hname
  rw [hmark name hname]
  cases present name <;> rfl

/-- Compiling is correct: the bytes are read back with the keys of the policy, in the order
of their hashes, and the quorum program decides every set of key hashes as the quorum does.
-/
theorem ofBytes_compileToBytes_decides
    (policy : Policy) {bytes : Bytes}
    (h : policy.compileToBytes = .ok bytes) :
    ∃ compiled, CompiledPolicy.ofBytes bytes = .ok compiled ∧
      compiled.logs = policy.logs.publicKeys ∧ AscendingKeys compiled.logs ∧
      compiled.witnesses = policy.witnesses.publicKeys ∧ AscendingKeys compiled.witnesses ∧
      ∀ present : KeyHash → Bool,
          compiled.evaluate
              (compiled.witnesses.map fun key => if present (keyHash key) then 1 else 0) =
            policy.isQuorum present := by
  obtain ⟨compiled, hcompile, rfl⟩ := compileToBytes_eq_ok h
  obtain ⟨-, -, -, hlogs, hwitnesses, -⟩ := compile_eq_ok hcompile
  exact ⟨compiled, compiled.ofBytes_toBytes, hlogs, compiled.logs_ascending, hwitnesses,
    compiled.witnesses_ascending, evaluate_marks hcompile⟩

/-- Three witnesses and a log whose keys repeat one byte.  One witness counts twice, and the
other two stand in for each other. -/
def sample : Policy where
  logs := {
    entries := [7].map fun b => (keyHash (.replicate b), ⟨.replicate b, none⟩)
    ascending := List.pairwise_singleton _ _
    filed := by simp [Entity.name] }
  witnesses := {
    entries := [3, 1, 2].map fun b => (keyHash (.replicate b), ⟨.replicate b, none⟩)
    ascending := by decide +kernel
    filed := by simp [Entity.name] }
  quorum := .group 2 [
    .witness (keyHash (.replicate 1)),
    .group 1 [.witness (keyHash (.replicate 2)), .witness (keyHash (.replicate 3))],
    .group 1 [.witness (keyHash (.replicate 1))]]
  wellFormed := by simp [Quorum.ThresholdFits]
  closed := by decide +kernel

/-- The compiled form of the sample. -/
def sampleBytes : Bytes :=
  [0, 1, 3, 9] ++ [7, 3, 1, 2].flatMap (List.replicate 32) ++
    [0x41, 0x41, 0x01, 0x40, 0x42, 0x01, 0x81, 0x01, 0x82]

theorem compileToBytes_sample : sample.compileToBytes = .ok sampleBytes := by
  decide +kernel

theorem ofBytes_sampleBytes_decides :
    sample.compileToBytes = .ok sampleBytes ∧
      ∃ compiled, CompiledPolicy.ofBytes sampleBytes = .ok compiled ∧
        compiled.logs = sample.logs.publicKeys ∧ AscendingKeys compiled.logs ∧
        compiled.witnesses = sample.witnesses.publicKeys ∧ AscendingKeys compiled.witnesses ∧
        ∀ present : KeyHash → Bool,
            compiled.evaluate
                (compiled.witnesses.map fun key => if present (keyHash key) then 1 else 0) =
              sample.isQuorum present :=
  ⟨compileToBytes_sample, ofBytes_compileToBytes_decides sample compileToBytes_sample⟩

end Policy

end WitnessedLog
