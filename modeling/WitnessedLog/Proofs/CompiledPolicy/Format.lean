import WitnessedLog.Proofs.CompiledPolicy.RoundTrip

/-!
# The binary format

A byte string is a compiled policy in just one way, if at all: the reader accepts exactly the byte
strings laid out as the format says, and what it returns has them as its binary form.  Everything
else is refused with the first fault in a fixed order.  The lengths that are reported are those of
the whole byte string, its header included.
-/

namespace WitnessedLog

namespace CompiledPolicy

/-- The byte string consists of a header, the keys of the logs and of the witnesses, and the
program. -/
structure LaidOut (logs witnesses : List PublicKey) (program bytes : Bytes) : Prop where
  length_logs : logs.length ≤ 255
  length_witnesses : witnesses.length ≤ 255
  length_program : program.length ≤ 255
  logs_ascending : AscendingKeys logs
  witnesses_ascending : AscendingKeys witnesses
  bytes_eq : bytes =
    [0, UInt8.ofNat logs.length, UInt8.ofNat witnesses.length, UInt8.ofNat program.length] ++
      logs.flatMap Octets.bytes ++ witnesses.flatMap Octets.bytes ++ program

theorem laidOut_iff
    (logs witnesses : List PublicKey) (program bytes : Bytes) :
    LaidOut logs witnesses program bytes ↔
      ∃ policy : CompiledPolicy, policy.toBytes = bytes ∧ policy.logs = logs ∧
        policy.witnesses = witnesses ∧ policy.program = program := by
  constructor
  · intro h
    exact ⟨⟨logs, witnesses, program, h.logs_ascending, h.witnesses_ascending, h.length_logs,
      h.length_witnesses, h.length_program⟩, h.bytes_eq.symm, rfl, rfl, rfl⟩
  · rintro ⟨policy, rfl, rfl, rfl, rfl⟩
    exact ⟨policy.length_logs, policy.length_witnesses, policy.length_program,
      policy.logs_ascending, policy.witnesses_ascending, rfl⟩

/-- The byte at a place of the header. -/
def headerByte (bytes : Bytes) (place : Nat) : UInt8 :=
  bytes.getD place 0

/-- The length that the header announces for the whole byte string. -/
def announcedLength (bytes : Bytes) : Nat :=
  4 + 32 * ((headerByte bytes 1).toNat + (headerByte bytes 2).toNat) +
    (headerByte bytes 3).toNat

/-- The fault of a byte string that is not laid out as a compiled policy. -/
def fault (bytes : Bytes) : CompiledPolicyError :=
  if bytes.length < 4 then .tooShort
  else if headerByte bytes 0 ≠ 0 then .unsupportedVersion (headerByte bytes 0)
  else if bytes.length < announcedLength bytes then
    .truncated (announcedLength bytes) bytes.length
  else if announcedLength bytes < bytes.length then
    .trailingBytes (bytes.length - announcedLength bytes)
  else .unsortedKeys

theorem fault_cons (first logCount witnessCount programLength : UInt8) (body : Bytes) :
    fault (first :: logCount :: witnessCount :: programLength :: body) =
      let keyBytes := 32 * (logCount.toNat + witnessCount.toNat)
      if first ≠ version then .unsupportedVersion first
      else if body.length < keyBytes + programLength.toNat then
        .truncated (4 + keyBytes + programLength.toNat) (4 + body.length)
      else if keyBytes + programLength.toNat < body.length then
        .trailingBytes (body.length - (keyBytes + programLength.toNat))
      else .unsortedKeys := by
  have hlength : (first :: logCount :: witnessCount :: programLength :: body).length =
      4 + body.length := Nat.add_comm body.length 4
  have hannounced : announcedLength (first :: logCount :: witnessCount :: programLength :: body) =
      4 + 32 * (logCount.toNat + witnessCount.toNat) + programLength.toNat := rfl
  rw [fault, hlength, hannounced, if_neg (Nat.not_lt.mpr (Nat.le_add_right 4 body.length))]
  simp only [Nat.add_assoc, Nat.add_lt_add_iff_left, Nat.add_sub_add_left]
  rfl

/-- The keys that are read make up the bytes they are read from. -/
theorem flatMap_readKeys
    (count : Nat) (bytes : Bytes) (h : 32 * count ≤ bytes.length) :
    (readKeys count bytes h).flatMap Octets.bytes = bytes.take (32 * count) := by
  induction count generalizing bytes with
  | zero => rfl
  | succ count ih =>
      have hsplit : 32 * (count + 1) = 32 + 32 * count := by omega
      rw [readKeys, List.flatMap_cons, ih, hsplit, List.take_add]

/-- The parts that are read make up the bytes behind the header. -/
theorem parts_append
    (logCount witnessCount : Nat) (body : Bytes) (hlogs : 32 * logCount ≤ body.length)
    (hwitnesses : 32 * witnessCount ≤ (body.drop (32 * logCount)).length) :
    (readKeys logCount body hlogs).flatMap Octets.bytes ++
        (readKeys witnessCount (body.drop (32 * logCount)) hwitnesses).flatMap Octets.bytes ++
        body.drop (32 * (logCount + witnessCount)) = body := by
  rw [flatMap_readKeys, flatMap_readKeys, ← List.take_add, ← Nat.mul_add,
    List.take_append_drop]

/-- Reading returns a policy whose binary form was read, or else the fault of the bytes. -/
theorem ofBytes_cases (bytes : Bytes) :
    (∃ policy, ofBytes bytes = .ok policy ∧ policy.toBytes = bytes) ∨
      ofBytes bytes = .error (fault bytes) := by
  match bytes with
  | [] => exact Or.inr rfl
  | [_] => exact Or.inr rfl
  | [_, _] => exact Or.inr rfl
  | [_, _, _] => exact Or.inr rfl
  | first :: logCount :: witnessCount :: programLength :: body =>
      simp only [ofBytes, fault_cons]
      by_cases hversion : first ≠ version
      · exact Or.inr (by rw [if_pos hversion, if_pos hversion])
      · rw [if_neg hversion, if_neg hversion]
        split
        next => exact Or.inr rfl
        next hshort =>
          split
          next => exact Or.inr rfl
          next hlong =>
            split
            next hascending =>
              have hprogram : (body.drop (32 * (logCount.toNat + witnessCount.toNat))).length =
                  programLength.toNat := by
                rw [List.length_drop]
                omega
              refine Or.inl ⟨_, rfl, ?_⟩
              simp only [toBytes, length_readKeys, hprogram, UInt8.ofNat_toNat, parts_append]
              rw [Decidable.not_not.mp hversion]
            next => exact Or.inr rfl

theorem ofBytes_eq_ok_iff (policy : CompiledPolicy) (bytes : Bytes) :
    ofBytes bytes = .ok policy ↔ policy.toBytes = bytes := by
  constructor
  · intro hread
    rcases ofBytes_cases bytes with ⟨policy', hread', hbytes⟩ | hfault
    · rw [hread] at hread'
      rw [Except.ok.inj hread', hbytes]
    · rw [hread] at hfault
      cases hfault
  · rintro rfl
    exact ofBytes_toBytes policy

theorem ofBytes_eq_error_iff (error : CompiledPolicyError) (bytes : Bytes) :
    ofBytes bytes = .error error ↔
      (¬∃ policy : CompiledPolicy, policy.toBytes = bytes) ∧ error = fault bytes := by
  rcases ofBytes_cases bytes with ⟨policy, hread, hbytes⟩ | hfault
  · rw [hread]
    constructor
    · intro h
      cases h
    · rintro ⟨hnone, -⟩
      exact absurd ⟨policy, hbytes⟩ hnone
  · constructor
    · intro hread
      rw [hfault] at hread
      constructor
      · rintro ⟨policy, rfl⟩
        rw [ofBytes_toBytes] at hfault
        cases hfault
      · exact (Except.error.inj hread).symm
    · rintro ⟨-, rfl⟩
      exact hfault

/-- The reader accepts what is laid out as the format says, returns the parts laid out, and names
the first fault of everything else. -/
theorem ofBytes_accepts_format (bytes : Bytes) :
    (∀ logs witnesses program, LaidOut logs witnesses program bytes ↔
      ∃ policy, ofBytes bytes = .ok policy ∧ policy.logs = logs ∧ policy.witnesses = witnesses ∧
        policy.program = program) ∧
    (∀ policy, ofBytes bytes = .ok policy ↔ policy.toBytes = bytes) ∧
    (∀ error, ofBytes bytes = .error error ↔
      (¬∃ logs witnesses program, LaidOut logs witnesses program bytes) ∧ error = fault bytes) := by
  have hlaid : (∃ logs witnesses program, LaidOut logs witnesses program bytes) ↔
      ∃ policy : CompiledPolicy, policy.toBytes = bytes := by
    simp only [laidOut_iff]
    constructor
    · rintro ⟨_, _, _, policy, hbytes, -⟩
      exact ⟨policy, hbytes⟩
    · rintro ⟨policy, hbytes⟩
      exact ⟨_, _, _, policy, hbytes, rfl, rfl, rfl⟩
  refine ⟨?_, ?_, ?_⟩
  · intro logs witnesses program
    simp only [ofBytes_eq_ok_iff]
    exact laidOut_iff logs witnesses program bytes
  · intro policy
    exact ofBytes_eq_ok_iff policy bytes
  · intro error
    rw [hlaid]
    exact ofBytes_eq_error_iff error bytes

example : ofBytes [0, 1, 0, 2, 7] = .error (.truncated 38 5) := rfl

end CompiledPolicy

end WitnessedLog
