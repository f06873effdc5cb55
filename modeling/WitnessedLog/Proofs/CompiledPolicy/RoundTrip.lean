import WitnessedLog.CompiledPolicy

/-!
# Reading back the binary form

The parts of a compiled policy are laid out one after another, so their lengths suffice to
tell them apart, and what is read from the binary form of a compiled policy is that policy.
-/

namespace WitnessedLog

namespace CompiledPolicy

theorem length_flatMap_bytes (keys : List PublicKey) :
    (keys.flatMap Octets.bytes).length = 32 * keys.length := by
  induction keys with
  | nil => rfl
  | cons key keys ih =>
      rw [List.flatMap_cons, List.length_append, ih, key.length_bytes, List.length_cons, Role.size]
      omega

/-- The keys at the front of a byte string are read back. -/
theorem readKeys_flatMap
    {keys : List PublicKey} {count : Nat} {bytes : Bytes}
    (h : 32 * count ≤ bytes.length) (rest : Bytes)
    (hcount : count = keys.length) (hbytes : bytes = keys.flatMap Octets.bytes ++ rest) :
    readKeys count bytes h = keys := by
  subst hcount hbytes
  induction keys with
  | nil => rfl
  | cons key keys ih =>
      have hkey : key.bytes.length = 32 := key.length_bytes
      have htake : (((key :: keys).flatMap Octets.bytes ++ rest).take 32) = key.bytes := by
        rw [List.flatMap_cons, List.append_assoc, List.take_left' hkey]
      have hdrop : (((key :: keys).flatMap Octets.bytes ++ rest).drop 32) =
          keys.flatMap Octets.bytes ++ rest := by
        rw [List.flatMap_cons, List.append_assoc, List.drop_left' hkey]
      simp only [List.length_cons, readKeys, List.cons.injEq]
      constructor
      · exact Octets.ext_bytes htake
      · simp only [hdrop]
        apply ih

/-- A compiled policy is read back from its binary form. -/
theorem ofBytes_toBytes (policy : CompiledPolicy) : ofBytes policy.toBytes = .ok policy := by
  have hlogs : (UInt8.ofNat policy.logs.length).toNat = policy.logs.length :=
    UInt8.toNat_ofNat_of_lt' (Nat.lt_succ_of_le policy.length_logs)
  have hwitnesses : (UInt8.ofNat policy.witnesses.length).toNat = policy.witnesses.length :=
    UInt8.toNat_ofNat_of_lt' (Nat.lt_succ_of_le policy.length_witnesses)
  have hprogram : (UInt8.ofNat policy.program.length).toNat = policy.program.length :=
    UInt8.toNat_ofNat_of_lt' (Nat.lt_succ_of_le policy.length_program)
  have hkeys : (policy.logs.flatMap Octets.bytes ++ policy.witnesses.flatMap Octets.bytes).length =
      32 * (policy.logs.length + policy.witnesses.length) := by
    rw [List.length_append, length_flatMap_bytes, length_flatMap_bytes, Nat.mul_add]
  have hbody : (policy.logs.flatMap Octets.bytes ++ policy.witnesses.flatMap Octets.bytes ++
      policy.program).length =
        32 * (policy.logs.length + policy.witnesses.length) + policy.program.length := by
    rw [List.length_append, hkeys]
  have hdropLogs : (policy.logs.flatMap Octets.bytes ++ policy.witnesses.flatMap Octets.bytes ++
      policy.program).drop (32 * policy.logs.length) =
        policy.witnesses.flatMap Octets.bytes ++ policy.program := by
    rw [List.append_assoc, List.drop_left' (length_flatMap_bytes policy.logs)]
  have hreadLogs : ∀ h, readKeys policy.logs.length
      (policy.logs.flatMap Octets.bytes ++ policy.witnesses.flatMap Octets.bytes ++
        policy.program) h = policy.logs := fun h =>
    readKeys_flatMap h (policy.witnesses.flatMap Octets.bytes ++ policy.program) rfl
      (List.append_assoc _ _ _)
  have hreadWitnesses : ∀ h, readKeys policy.witnesses.length
      (policy.witnesses.flatMap Octets.bytes ++ policy.program) h = policy.witnesses := fun h =>
    readKeys_flatMap h policy.program rfl rfl
  simp only [toBytes, ofBytes, hlogs, hwitnesses, hprogram, hbody, ne_eq, not_true_eq_false,
    if_false, Nat.lt_irrefl, dite_false, hdropLogs, hreadLogs, hreadWitnesses,
    List.drop_left' hkeys]
  rw [dif_pos ⟨policy.logs_ascending, policy.witnesses_ascending⟩]

theorem toBytes_inj
    {policy policy' : CompiledPolicy}
    (h : policy.toBytes = policy'.toBytes) : policy = policy' := by
  have hread := ofBytes_toBytes policy
  rw [h, ofBytes_toBytes] at hread
  exact (Except.ok.inj hread).symm

end CompiledPolicy

end WitnessedLog
