import WitnessedLog.Proofs.Policy.CompilerCorrectness

/-!
# The limits of compiled forms

Every policy has a compiled form unless it breaks a limit, and then the first limit that it breaks
is reported with the number that breaks it.  The size of the program is computed from the numbered
quorum before a byte is written, and is the length of what is written, so the counts in the header
are never cut to a byte.
-/

namespace WitnessedLog

namespace Policy

/-- The quorum of a policy over the numbers of its witnesses. -/
def numberedQuorum (policy : Policy) : Quorum Nat :=
  policy.quorum.rename policy.witnessNumber

/-- The limits that a policy keeps which has a compiled form. -/
structure Fits (policy : Policy) : Prop where
  logs : policy.logs.size ≤ 255
  witnesses : policy.witnesses.size ≤ 255
  noEmptyGroup : policy.quorum.NoEmptyGroup
  program : Program.size policy.numberedQuorum ≤ 255

/-- The bytes are laid out for the keys and the quorum of a policy, with their true numbers in the
header. -/
def LaidOutFor (policy : Policy) (bytes : Bytes) : Prop :=
  ∃ logCount witnessCount programLength : UInt8,
    logCount.toNat = policy.logs.size ∧ witnessCount.toNat = policy.witnesses.size ∧
    programLength.toNat = (Program.ofQuorum policy.numberedQuorum).length ∧
    bytes = CompiledPolicy.version :: logCount :: witnessCount :: programLength ::
      (policy.logs.publicKeys.flatMap Octets.bytes ++
        policy.witnesses.publicKeys.flatMap Octets.bytes ++
        Program.ofQuorum policy.numberedQuorum)

variable {policy : Policy}

/-! ## One limit after the other -/

theorem compileToBytes_of_logs
    (h : 255 < policy.logs.size) :
    policy.compileToBytes = .error (.tooManyLogs policy.logs.size) := by
  rw [compileToBytes, compile, dif_pos h]
  rfl

theorem compileToBytes_of_witnesses
    (hlogs : policy.logs.size ≤ 255) (h : 255 < policy.witnesses.size) :
    policy.compileToBytes = .error (.tooManyWitnesses policy.witnesses.size) := by
  rw [compileToBytes, compile, dif_neg (Nat.not_lt.mpr hlogs), dif_pos h]
  rfl

theorem compileToBytes_of_emptyGroup
    (hlogs : policy.logs.size ≤ 255) (hwitnesses : policy.witnesses.size ≤ 255)
    (h : ¬policy.quorum.NoEmptyGroup) :
    policy.compileToBytes = .error .emptyGroup := by
  rw [compileToBytes, compile, dif_neg (Nat.not_lt.mpr hlogs),
    dif_neg (Nat.not_lt.mpr hwitnesses),
    Quorum.numbered_eq_emptyGroup h fun _ => position?_eq_some_witnessNumber]
  rfl

/-- A quorum without empty groups is numbered, since its witnesses are all in the policy. -/
theorem numbered_eq_numberedQuorum
    (h : policy.quorum.NoEmptyGroup) :
    policy.quorum.numbered policy.witnesses.position? = .ok policy.numberedQuorum :=
  Quorum.numbered_eq_rename h fun _ => position?_eq_some_witnessNumber

theorem compileToBytes_of_size
    (hlogs : policy.logs.size ≤ 255) (hwitnesses : policy.witnesses.size ≤ 255)
    (hnonempty : policy.quorum.NoEmptyGroup) (h : 255 < Program.size policy.numberedQuorum) :
    policy.compileToBytes =
      .error (.quorumTooComplex (Program.size policy.numberedQuorum)) := by
  rw [compileToBytes, compile, dif_neg (Nat.not_lt.mpr hlogs),
    dif_neg (Nat.not_lt.mpr hwitnesses), numbered_eq_numberedQuorum hnonempty]
  simp only [dif_pos h]
  rfl

theorem exists_compileToBytes_of_fits
    (h : policy.Fits) :
    ∃ bytes, policy.compileToBytes = .ok bytes ∧ policy.LaidOutFor bytes := by
  have hlogs : (UInt8.ofNat policy.logs.publicKeys.length).toNat = policy.logs.size := by
    rw [Roster.length_publicKeys]
    exact UInt8.toNat_ofNat_of_lt' (Nat.lt_succ_of_le h.logs)
  have hwitnesses : (UInt8.ofNat policy.witnesses.publicKeys.length).toNat =
      policy.witnesses.size := by
    rw [Roster.length_publicKeys]
    exact UInt8.toNat_ofNat_of_lt' (Nat.lt_succ_of_le h.witnesses)
  have hprogram : (UInt8.ofNat (Program.ofQuorum policy.numberedQuorum).length).toNat =
      (Program.ofQuorum policy.numberedQuorum).length := by
    rw [Program.length_ofQuorum]
    exact UInt8.toNat_ofNat_of_lt' (Nat.lt_succ_of_le h.program)
  rw [compileToBytes, compile, dif_neg (Nat.not_lt.mpr h.logs),
    dif_neg (Nat.not_lt.mpr h.witnesses), numbered_eq_numberedQuorum h.noEmptyGroup]
  simp only [dif_neg (Nat.not_lt.mpr h.program)]
  exact ⟨_, rfl, _, _, _, hlogs, hwitnesses, hprogram, rfl⟩

/-! ## All limits -/

/-- Compiling succeeds exactly within its limits, and otherwise reports the first one broken.  The
size of the program is the length of what is written, and no witness of the quorum is ever unknown.
-/
theorem compileToBytes_within_limits (policy : Policy) :
    Program.size policy.numberedQuorum = (Program.ofQuorum policy.numberedQuorum).length ∧
      (∀ count, policy.compileToBytes = .error (.tooManyLogs count) ↔
        policy.logs.size = count ∧ 255 < count) ∧
      (∀ count, policy.compileToBytes = .error (.tooManyWitnesses count) ↔
        policy.logs.size ≤ 255 ∧ policy.witnesses.size = count ∧ 255 < count) ∧
      (policy.compileToBytes = .error .emptyGroup ↔
        policy.logs.size ≤ 255 ∧ policy.witnesses.size ≤ 255 ∧ ¬policy.quorum.NoEmptyGroup) ∧
      (∀ size, policy.compileToBytes = .error (.quorumTooComplex size) ↔
        policy.logs.size ≤ 255 ∧ policy.witnesses.size ≤ 255 ∧ policy.quorum.NoEmptyGroup ∧
        Program.size policy.numberedQuorum = size ∧ 255 < size) ∧
      ((∃ bytes, policy.compileToBytes = .ok bytes) ↔ policy.Fits) ∧
      (∀ bytes, policy.compileToBytes = .ok bytes → policy.LaidOutFor bytes) ∧
      ∀ witness, policy.compileToBytes ≠ .error (.unknownWitness witness) := by
  refine ⟨(Program.length_ofQuorum _).symm, ?_⟩
  by_cases hlogs : 255 < policy.logs.size
  · have hmany : ¬policy.logs.size ≤ 255 := Nat.not_le.mpr hlogs
    have hfits : ¬policy.Fits := fun h => hmany h.logs
    simp [compileToBytes_of_logs hlogs, hlogs, hmany, hfits]
  have hlogs : policy.logs.size ≤ 255 := Nat.not_lt.mp hlogs
  by_cases hwitnesses : 255 < policy.witnesses.size
  · have hmany : ¬policy.witnesses.size ≤ 255 := Nat.not_le.mpr hwitnesses
    have hfits : ¬policy.Fits := fun h => hmany h.witnesses
    simp [compileToBytes_of_witnesses hlogs hwitnesses, hlogs, hwitnesses, hmany, hfits]
  have hwitnesses : policy.witnesses.size ≤ 255 := Nat.not_lt.mp hwitnesses
  by_cases hnonempty : policy.quorum.NoEmptyGroup
  · by_cases hsize : 255 < Program.size policy.numberedQuorum
    · have hfits : ¬policy.Fits := fun h => absurd h.program (Nat.not_le.mpr hsize)
      simp [compileToBytes_of_size hlogs hwitnesses hnonempty hsize, hlogs, hwitnesses, hnonempty,
        hsize, hfits]
    · have hsize : Program.size policy.numberedQuorum ≤ 255 := Nat.not_lt.mp hsize
      have hfits : policy.Fits := ⟨hlogs, hwitnesses, hnonempty, hsize⟩
      obtain ⟨bytes, hbytes, hlaid⟩ := exists_compileToBytes_of_fits hfits
      simp [hbytes, hlogs, hwitnesses, hnonempty, hsize, hfits, hlaid]
  · have hfits : ¬policy.Fits := fun h => hnonempty h.noEmptyGroup
    simp [compileToBytes_of_emptyGroup hlogs hwitnesses hnonempty, hlogs, hwitnesses, hnonempty,
      hfits]

end Policy

end WitnessedLog
