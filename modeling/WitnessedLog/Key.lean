import WitnessedLog.Octets
import WitnessedLog.Sha256

/-!
# SHA-256 values

Digests as typed values: the hash of a byte string, and the hash by which a public key is known.
-/

namespace WitnessedLog

/-- The SHA-256 digest of a byte string. -/
def sha256 (data : Bytes) : Hash :=
  ⟨Sha256.digest data, Sha256.length_digest data⟩

/-- Take a digest as the name of a key. -/
def Octets.asKeyHash (digest : Hash) : KeyHash :=
  ⟨digest.bytes, digest.length_bytes⟩

/-- The key hash by which a public key is known. -/
def keyHash (key : PublicKey) : KeyHash :=
  (sha256 key.bytes).asKeyHash

end WitnessedLog
