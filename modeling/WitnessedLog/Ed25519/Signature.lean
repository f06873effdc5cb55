import WitnessedLog.Ed25519.Curve
import WitnessedLog.Octets
import WitnessedLog.Sha512

/-!
# Ed25519 signatures

A signature is the encoding of a point `R` followed by a scalar `S` below the order of the base
point.  It is accepted when `S · B - k · A` encodes to the very bytes of `R`, where `A` is the public
key, `B` the base point, and `k` the digest of `R`, the key and the message.  The cofactor is not
cleared, and public keys of small order are not refused.
-/

namespace WitnessedLog

namespace Ed25519

/-- The order of the base point. -/
def groupOrder : Nat := (1 <<< 252) + 27742317777372353535851937790883648493

/-- The scalar that binds a signature to its commitment, key and message. -/
def challenge (commitment key message : Bytes) : Nat :=
  Bytes.ofLittleEndian (Sha512.digest (commitment ++ key ++ message)) % groupOrder

/-- Whether a signature over the message is valid under the key. -/
def verify (key : PublicKey) (signature : Signature) (message : Bytes) : Bool :=
  let commitment := signature.bytes.take 32
  let response := Bytes.ofLittleEndian (signature.bytes.drop 32)
  if response < groupOrder then
    match Point.decode? key.bytes with
    | some point =>
      let k := challenge commitment key.bytes message
      let expected := (Point.base.multiple response).add (point.neg.multiple k)
      expected.encode == commitment
    | none => false
  else false

end Ed25519

end WitnessedLog
