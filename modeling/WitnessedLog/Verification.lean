import WitnessedLog.Capability
import WitnessedLog.LoggingProof
import WitnessedLog.Merkle.Inclusion
import WitnessedLog.Statement
import WitnessedLog.TrustPolicy

/-!
# Verification of proofs of logging

A proof passes a fixed sequence of gates: the leaf names the submitter's key and carries a signature
under it, the tree head is signed by a log that the policy trusts and cosigned by a quorum of its
witnesses, and the leaf is in the tree.  The first gate that fails decides.  At the quorum a
signature that does not match is passed over; the failure of a capability always ends the
verification.

Capabilities are called in a session, which keeps the calls made so far.
-/

namespace WitnessedLog

/-- Why a proof is not accepted. -/
inductive VerifyError where
  | keyMismatch
  | invalidMessageSignature
  | logNotFound
  | treeHeadSignature
  | quorumNotSatisfied
  | inclusion (cause : Merkle.InclusionError)
  | crypto (cause : CryptoError)
  | policy (cause : PolicyError)
  | compiledPolicy (cause : CompiledPolicyError)
  | proof (cause : ProofError)
  deriving DecidableEq

/-- The sentence shown for a verification error. -/
def VerifyError.message : VerifyError → String
  | .keyMismatch => "proof key does not match the provided one"
  | .invalidMessageSignature => "invalid message signature"
  | .logNotFound => "log key not found in policy"
  | .treeHeadSignature => "failed to verify tree head signature"
  | .quorumNotSatisfied => "cosignature quorum not satisfied"
  | .inclusion cause => cause.message
  | .crypto cause => cause.message
  | .policy cause => cause.message
  | .compiledPolicy cause => cause.message
  | .proof cause => cause.message

/-- A computation that calls capabilities.  The calls are kept also when it fails. -/
abbrev Session := ExceptT VerifyError (StateM (List Call))

namespace Session

/-- Record a call and take its answer, which may depend on the calls made before. -/
def call {α : Type} (request : Call) (answer : List Call → Except CryptoError α) : Session α :=
  ExceptT.mk fun calls =>
    ((answer calls).mapError VerifyError.crypto, calls ++ [request])

/-- The outcome of a session that starts with no calls made, and the calls that it makes. -/
def outcome {α : Type} (session : Session α) : Except VerifyError α × List Call :=
  session.run.run []

end Session

/-- A cosignature that is to be checked. -/
structure PendingCheck where
  /-- the position of the witness in the policy -/
  index : Nat
  witness : KeyHash
  key : PublicKey
  cosignature : Cosignature
  deriving DecidableEq

/-- What the checks have found so far: the witnesses with a valid cosignature by key hash, and a one
at the position of each among all witnesses. -/
structure Tally where
  present : List KeyHash
  found : Bytes
  deriving DecidableEq

namespace Tally

/-- None of a number of witnesses has been found. -/
def nobody (count : Nat) : Tally :=
  ⟨[], List.replicate count 0⟩

/-- Count the witness of a check. -/
def add (tally : Tally) (check : PendingCheck) : Tally :=
  ⟨check.witness :: tally.present, tally.found.set check.index 1⟩

end Tally

/-- A verifier: its capabilities, and the order in which pending checks of cosignatures complete. -/
structure Verifier where
  provider : Provider
  order : List PendingCheck → List PendingCheck

namespace Verifier

/-- The verifier that completes its checks in ascending order of the witnesses' key hashes. -/
def ascending (provider : Provider) : Verifier :=
  ⟨provider, id⟩

variable (verifier : Verifier)

/-- Import a public key. -/
def importKey (key : PublicKey) : Session PublicKey :=
  Session.call (.importKey key) (fun calls => verifier.provider.importKey calls key)

/-- Digest a byte string. -/
def digest (data : Bytes) : Session Hash :=
  Session.call (.digest data) (fun calls => verifier.provider.digest calls data)

/-- Check a signature. -/
def verify (key : PublicKey) (signature : Signature) (message : Bytes) : Session Bool :=
  Session.call (.verify key signature message)
    (fun calls => verifier.provider.verify calls key signature message)

/-- The hash by which an imported key is known. -/
def hashKey (key : PublicKey) : Session KeyHash := do
  let digest ← verifier.digest key.bytes
  pure digest.asKeyHash

/-- Import and hash the key of every witness, and keep those with a cosignature. -/
def gatherChecks (cosignatures : KeyTable Cosignature) :
    List (PublicKey × Nat) → Session (List PendingCheck)
  | [] => pure []
  | (raw, index) :: rest => do
    let key ← verifier.importKey raw
    let witness ← verifier.hashKey key
    let checks ← gatherChecks cosignatures rest
    match cosignatures.get? witness with
    | some cosignature => pure (⟨index, witness, key, cosignature⟩ :: checks)
    | none => pure checks

/-- Complete checks one by one until the quorum holds, which is tested after each valid cosignature.
The answer is whether it holds in the end, and what has been found by then. -/
def completeChecks (policy : TrustPolicy) (head : TreeHead) (log : KeyHash) (tally : Tally) :
    List PendingCheck → Session (Bool × Tally)
  | [] => pure (false, tally)
  | check :: rest => do
    let statement := Statement.cosigned head log check.cosignature.timestamp
    let valid ← verifier.verify check.key check.cosignature.signature (Statement.bytes statement)
    if valid then
      let tally := tally.add check
      if policy.isSatisfied tally.present tally.found then pure (true, tally)
      else completeChecks policy head log tally rest
    else completeChecks policy head log tally rest

/-- Whether a quorum of witnesses cosigned the tree head.  No capability is called if none is
needed. -/
def checkQuorum (policy : TrustPolicy) (proof : LoggingProof) : Session Bool := do
  let keys := policy.witnessKeys
  let tally := Tally.nobody keys.length
  if policy.isSatisfied tally.present tally.found then pure true
  else
    let checks ← verifier.gatherChecks proof.treeHead.cosignatures keys.zipIdx
    let completed ← verifier.completeChecks policy proof.treeHead.signed.treeHead proof.log tally
      (verifier.order checks)
    pure completed.1

/-- Verify a proof for a message that is given by its SHA-256 digest. -/
def verifyHash (messageHash : Hash) (submitter : PublicKey) (policy : TrustPolicy)
    (proof : LoggingProof) : Session Unit := do
  let key ← verifier.importKey submitter
  let submitterHash ← verifier.hashKey key
  let checksum ← verifier.digest messageHash.bytes
  if proof.leaf.keyHash ≠ submitterHash then throw .keyMismatch
  let leafValid ← verifier.verify key proof.leaf.signature (Statement.leaf checksum)
  if !leafValid then throw .invalidMessageSignature
  match policy.log? proof.log with
  | none => throw .logNotFound
  | some raw =>
    let logKey ← verifier.importKey raw
    let signed := proof.treeHead.signed
    let checkpoint := Statement.checkpoint signed.treeHead proof.log
    let headValid ← verifier.verify logKey signed.signature (Statement.bytes checkpoint)
    if !headValid then throw .treeHeadSignature
    let quorum ← verifier.checkQuorum policy proof
    if !quorum then throw .quorumNotSatisfied
    let leafHash ← verifier.digest (proof.leaf.complete checksum).encode
    match Merkle.checkInclusion leafHash proof.inclusion.leafIndex signed.treeHead
        proof.inclusion.path with
    | .ok () => pure ()
    | .error cause => throw (.inclusion cause)

/-- Verify a proof for a message. -/
def verifyMessage (message : Bytes) (submitter : PublicKey) (policy : TrustPolicy)
    (proof : LoggingProof) : Session Unit := do
  let messageHash ← verifier.digest message
  verifier.verifyHash messageHash submitter policy proof

end Verifier

end WitnessedLog
