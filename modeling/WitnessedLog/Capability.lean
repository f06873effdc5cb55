import WitnessedLog.Ed25519.Signature
import WitnessedLog.Key

/-!
# Cryptographic capabilities

Importing a key, digesting bytes and checking a signature are capabilities that a verifier is given.
A provider of them may fail, and its answers may depend on the calls made before.  A negative answer
about a signature is no failure.
-/

namespace WitnessedLog

/-- A request to a provider. -/
inductive Call where
  | importKey (key : PublicKey)
  | digest (data : Bytes)
  | verify (key : PublicKey) (signature : Signature) (message : Bytes)
  deriving DecidableEq

/-- Why a capability failed to run. -/
inductive CryptoError where
  | keyImport (reason : String)
  | verify (reason : String)
  | digest (reason : String)
  deriving DecidableEq

/-- The sentence shown for a failure of a capability. -/
def CryptoError.message : CryptoError → String
  | .keyImport reason => "failed to import public key: " ++ reason
  | .verify reason => "signature verification failed to run: " ++ reason
  | .digest reason => "digest failed: " ++ reason

/-- Answers to calls, given the calls made before, oldest first. -/
structure Provider where
  importKey : List Call → PublicKey → Except CryptoError PublicKey
  digest : List Call → Bytes → Except CryptoError Hash
  verify : List Call → PublicKey → Signature → Bytes → Except CryptoError Bool

namespace Provider

/-- The provider that never fails, digests with SHA-256 and judges signatures by a given rule. -/
def ofRule (valid : PublicKey → Signature → Bytes → Bool) : Provider where
  importKey _ key := .ok key
  digest _ data := .ok (sha256 data)
  verify _ key signature message := .ok (valid key signature message)

/-- The provider of SHA-256 and Ed25519. -/
def standard : Provider :=
  ofRule Ed25519.verify

end Provider

end WitnessedLog
