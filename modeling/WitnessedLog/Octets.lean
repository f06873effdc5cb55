import WitnessedLog.Hex

/-!
# Fixed-length values

Hashes, key hashes, public keys and signatures are byte strings whose length is fixed by the role
they play.  The role is part of the type, so a root hash cannot stand where a key hash belongs,
although both are 32 bytes long.  Values of one role are ordered by their bytes.
-/

namespace WitnessedLog

/-- What a fixed-length byte string stands for. -/
inductive Role where
  /-- a SHA-256 digest: message hash, checksum, leaf hash or tree node -/
  | hash
  /-- the SHA-256 digest of a public key, which names a log, a witness or a submitter -/
  | keyHash
  /-- a raw Ed25519 public key -/
  | publicKey
  /-- an Ed25519 signature -/
  | signature
  deriving DecidableEq, Repr

/-- The number of bytes of a value in the given role. -/
def Role.size : Role → Nat
  | .hash => 32
  | .keyHash => 32
  | .publicKey => 32
  | .signature => 64

/-- A byte string of the length that its role prescribes. -/
structure Octets (role : Role) where
  bytes : Bytes
  length_bytes : bytes.length = role.size
  deriving DecidableEq

/-- A SHA-256 digest. -/
abbrev Hash := Octets .hash

/-- The digest of a public key. -/
abbrev KeyHash := Octets .keyHash

/-- A raw Ed25519 public key. -/
abbrev PublicKey := Octets .publicKey

/-- An Ed25519 signature. -/
abbrev Signature := Octets .signature

namespace Octets

variable {role : Role}

instance : LT (Octets role) where
  lt a b := a.bytes < b.bytes

instance (a b : Octets role) : Decidable (a < b) :=
  inferInstanceAs (Decidable (a.bytes < b.bytes))

/-- Two values of one role with the same bytes are equal. -/
@[ext] theorem ext_bytes
    {a b : Octets role}
    (h : a.bytes = b.bytes) : a = b := by
  cases a
  cases b
  simp_all

theorem lt_irrefl (a : Octets role) : ¬ a < a :=
  List.lt_irrefl a.bytes

theorem lt_trans
    {a b c : Octets role}
    (hab : a < b) (hbc : b < c) : a < c :=
  List.lt_trans (α := UInt8) hab hbc

theorem lt_asymm
    {a b : Octets role}
    (hab : a < b) : ¬ b < a :=
  List.lt_asymm (α := UInt8) hab

/-- Any two values of one role are comparable. -/
theorem lt_or_eq_or_gt (a b : Octets role) : a < b ∨ a = b ∨ b < a := by
  rcases Std.lt_trichotomy a.bytes b.bytes with h | h | h
  · exact Or.inl h
  · exact Or.inr (Or.inl (ext_bytes h))
  · exact Or.inr (Or.inr h)

/-- Take a byte string of the right length as a value. -/
def ofBytes (role : Role) (bytes : Bytes) : Except EncodingError (Octets role) :=
  if h : bytes.length = role.size then .ok ⟨bytes, h⟩
  else .error (.invalidLength role.size bytes.length)

/-- Read a value from hexadecimal text. -/
def ofHex (role : Role) (text : String) : Except EncodingError (Octets role) :=
  match Hex.decode text with
  | .ok bytes => ofBytes role bytes
  | .error e => .error e

/-- The lower-case hexadecimal form of a value. -/
def toHex (value : Octets role) : String :=
  Hex.encode value.bytes

end Octets

end WitnessedLog
