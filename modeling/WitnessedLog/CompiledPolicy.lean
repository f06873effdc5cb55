import WitnessedLog.Key
import WitnessedLog.Program.Machine

/-!
# Compiled policies

A compiled policy is a frozen trust policy: the keys of its logs and witnesses and a quorum program.
Its binary form is a header of four bytes (the version and three lengths) followed by the three
parts.  Each list of keys is in strictly ascending order of the key hashes, and the position of a
witness in its list is the number by which the program refers to it.
-/

namespace WitnessedLog

/-- Why a byte string is not a compiled policy. -/
inductive CompiledPolicyError where
  | tooShort
  | unsupportedVersion (version : UInt8)
  | truncated (expected actual : Nat)
  | trailingBytes (excess : Nat)
  | unsortedKeys
  deriving DecidableEq

/-- The sentence shown for a fault of a compiled policy. -/
def CompiledPolicyError.message : CompiledPolicyError → String
  | .tooShort => "compiled policy too short"
  | .unsupportedVersion version => s!"unsupported compiled policy version {version}"
  | .truncated expected actual =>
    s!"compiled policy truncated: expected {expected} bytes, got {actual}"
  | .trailingBytes excess => s!"compiled policy has {excess} trailing bytes"
  | .unsortedKeys => "compiled policy keys not sorted by key hash"

/-- Keys in strictly ascending order of their hashes. -/
def AscendingKeys (keys : List PublicKey) : Prop :=
  (keys.map keyHash).Pairwise (· < ·)

instance (keys : List PublicKey) : Decidable (AscendingKeys keys) :=
  inferInstanceAs (Decidable (List.Pairwise _ _))

/-- A trust policy in compiled form. -/
structure CompiledPolicy where
  logs : List PublicKey
  witnesses : List PublicKey
  program : Bytes
  logs_ascending : AscendingKeys logs
  witnesses_ascending : AscendingKeys witnesses
  length_logs : logs.length ≤ 255
  length_witnesses : witnesses.length ≤ 255
  length_program : program.length ≤ 255
  deriving DecidableEq

namespace CompiledPolicy

/-- The version of the format. -/
def version : UInt8 := 0

/-- The first `count` keys of a byte string that is long enough to hold them. -/
def readKeys : (count : Nat) → (bytes : Bytes) → 32 * count ≤ bytes.length → List PublicKey
  | 0, _, _ => []
  | count + 1, bytes, h =>
    ⟨bytes.take 32, by simp only [List.length_take, Role.size]; omega⟩
      :: readKeys count (bytes.drop 32) (by simp only [List.length_drop]; omega)

@[simp] theorem length_readKeys
    (count : Nat) (bytes : Bytes) (h : 32 * count ≤ bytes.length) :
    (readKeys count bytes h).length = count := by
  induction count generalizing bytes with
  | zero => rfl
  | succ count ih => simp [readKeys, ih]

theorem logs_fit
    {logCount witnessCount programLength : Nat} {body : Bytes}
    (h : ¬body.length < 32 * (logCount + witnessCount) + programLength) :
    32 * logCount ≤ body.length := by
  omega

theorem witnesses_fit
    {logCount witnessCount programLength : Nat} {body : Bytes}
    (h : ¬body.length < 32 * (logCount + witnessCount) + programLength) :
    32 * witnessCount ≤ (body.drop (32 * logCount)).length := by
  rw [List.length_drop]
  omega

theorem length_readKeys_le
    (count : UInt8) (bytes : Bytes) (h : 32 * count.toNat ≤ bytes.length) :
    (readKeys count.toNat bytes h).length ≤ 255 := by
  rw [length_readKeys]
  exact Nat.le_of_lt_succ count.toNat_lt

theorem length_drop_le
    (count : UInt8) {start : Nat} {bytes : Bytes}
    (h : ¬start + count.toNat < bytes.length) :
    (bytes.drop start).length ≤ 255 := by
  have hcount : count.toNat < 256 := count.toNat_lt
  rw [List.length_drop]
  omega

/-- Read a compiled policy, which must take up all of the bytes. -/
def ofBytes (bytes : Bytes) : Except CompiledPolicyError CompiledPolicy :=
  match bytes with
  | version :: logCount :: witnessCount :: programLength :: body =>
    if version ≠ CompiledPolicy.version then .error (.unsupportedVersion version)
    else
      let keyBytes := 32 * (logCount.toNat + witnessCount.toNat)
      if hshort : body.length < keyBytes + programLength.toNat then
        .error (.truncated (4 + keyBytes + programLength.toNat) (4 + body.length))
      else if hlong : keyBytes + programLength.toNat < body.length then
        .error (.trailingBytes (body.length - (keyBytes + programLength.toNat)))
      else
        let logs := readKeys logCount.toNat body (logs_fit hshort)
        let witnesses := readKeys witnessCount.toNat (body.drop (32 * logCount.toNat))
          (witnesses_fit hshort)
        if h : AscendingKeys logs ∧ AscendingKeys witnesses then
          .ok {
            logs := logs
            witnesses := witnesses
            program := body.drop keyBytes
            logs_ascending := h.1
            witnesses_ascending := h.2
            length_logs := length_readKeys_le logCount _ _
            length_witnesses := length_readKeys_le witnessCount _ _
            length_program := length_drop_le programLength hlong }
        else .error .unsortedKeys
  | _ => .error .tooShort

/-- The binary form of a compiled policy. -/
def toBytes (policy : CompiledPolicy) : Bytes :=
  version :: UInt8.ofNat policy.logs.length :: UInt8.ofNat policy.witnesses.length
    :: UInt8.ofNat policy.program.length
    :: (policy.logs.flatMap Octets.bytes ++ policy.witnesses.flatMap Octets.bytes
      ++ policy.program)

/-- The key of the log that a key hash names. -/
def log? (policy : CompiledPolicy) (name : KeyHash) : Option PublicKey :=
  policy.logs.find? (fun key => keyHash key = name)

/-- Run the quorum program on what was found for each witness: one for a valid cosignature. -/
def evaluate (policy : CompiledPolicy) (found : Bytes) : Bool :=
  Program.holds policy.program policy.witnesses.length found

end CompiledPolicy

end WitnessedLog
