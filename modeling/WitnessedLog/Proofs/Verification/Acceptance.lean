import WitnessedLog.Proofs.Merkle.Soundness
import WitnessedLog.Proofs.Verification.Decision

/-!
# What an accepted proof proves

A proof is accepted only if the leaf names the submitter and is in the tree with the checksum
of the message.  If the tree head describes the tree over a list of leaves, the message is
therefore logged: the leaf that the submitter made for it is in the list, at the index that
the proof gives.  Only a collision of SHA-256 could make this fail, and the collision can be
read off the leaves and the proof.
-/

namespace WitnessedLog

/-- The leaf by which a submitter logs a message, given the signature over its checksum. -/
def Leaf.ofMessage (message : Bytes) (submitter : PublicKey) (signature : Signature) : Leaf where
  checksum := sha256 (sha256 message).bytes
  signature := signature
  keyHash := WitnessedLog.keyHash submitter

namespace Verifier

variable {verifier : Verifier} {policy : TrustPolicy} {proof : LoggingProof}

/-- A proof that passes all gates names the submitter's key and shows that its leaf is in the
tree. -/
theorem gates_of_verifyHash_ok
    (hprovider : verifier.provider.Faithful)
    {messageHash : Hash} {submitter : PublicKey} {calls later : List Call}
    (h : (verifier.verifyHash messageHash submitter policy proof).runAfter calls =
      (.ok (), later)) :
    proof.leaf.keyHash = keyHash submitter ∧
      Merkle.checkInclusion (proof.leaf.complete (sha256 messageHash.bytes)).hash
        proof.inclusion.leafIndex proof.treeHead.signed.treeHead proof.inclusion.path = .ok () := by
  obtain ⟨key, afterImport, himport, h⟩ := Session.exists_of_runAfter_bind_ok h
  obtain ⟨name, afterName, hname, h⟩ := Session.exists_of_runAfter_bind_ok h
  obtain ⟨checksum, afterChecksum, hchecksum, h⟩ := Session.exists_of_runAfter_bind_ok h
  have hkey : key = submitter := eq_of_importKey_ok hprovider himport
  have hname : name = keyHash key := eq_of_hashKey_ok hprovider hname
  have hchecksum : checksum = sha256 messageHash.bytes := eq_of_digest_ok hprovider hchecksum
  subst hkey hname hchecksum
  obtain ⟨hleaf, h⟩ := Session.of_runAfter_gate_ok h
  obtain ⟨leafValid, afterLeaf, -, h⟩ := Session.exists_of_runAfter_bind_ok h
  obtain ⟨-, h⟩ := Session.of_runAfter_gate_ok h
  cases hlog : policy.log? proof.log with
  | none =>
      simp only [hlog] at h
      cases h
  | some raw =>
      simp only [hlog] at h
      obtain ⟨logKey, afterLog, -, h⟩ := Session.exists_of_runAfter_bind_ok h
      obtain ⟨headValid, afterHead, -, h⟩ := Session.exists_of_runAfter_bind_ok h
      obtain ⟨-, h⟩ := Session.of_runAfter_gate_ok h
      obtain ⟨quorum, afterQuorum, -, h⟩ := Session.exists_of_runAfter_bind_ok h
      obtain ⟨-, h⟩ := Session.of_runAfter_gate_ok h
      obtain ⟨leafHash, afterDigest, hdigest, h⟩ := Session.exists_of_runAfter_bind_ok h
      have hhash : leafHash = (proof.leaf.complete (sha256 messageHash.bytes)).hash :=
        eq_of_digest_ok hprovider hdigest
      rw [hhash] at h
      refine ⟨Decidable.not_not.mp hleaf, ?_⟩
      cases hinclusion : Merkle.checkInclusion
          (proof.leaf.complete (sha256 messageHash.bytes)).hash proof.inclusion.leafIndex
          proof.treeHead.signed.treeHead proof.inclusion.path with
      | ok _ => rfl
      | error cause =>
          simp only [hinclusion] at h
          cases h

/-- A proof that meets all gates is accepted. -/
theorem yields_verifyHash_of_gates
    {valid : PublicKey → Signature → Bytes → Bool}
    (hrule : verifier.provider = .ofRule valid)
    {messageHash : Hash} {submitter logKey : PublicKey}
    (hkey : proof.leaf.keyHash = keyHash submitter)
    (hleaf : valid submitter proof.leaf.signature
      (Statement.leaf (sha256 messageHash.bytes)) = true)
    (hlog : policy.log? proof.log = some logKey)
    (hhead : valid logKey proof.treeHead.signed.signature (Statement.bytes
      (Statement.checkpoint proof.treeHead.signed.treeHead proof.log)) = true)
    (hquorum : (verifier.checkQuorum policy proof).Yields (.ok true))
    (hinclusion : Merkle.checkInclusion (proof.leaf.complete (sha256 messageHash.bytes)).hash
      proof.inclusion.leafIndex proof.treeHead.signed.treeHead proof.inclusion.path = .ok ()) :
    (verifier.verifyHash messageHash submitter policy proof).Yields (.ok ()) := by
  unfold verifyHash
  refine (yields_importKey hrule _).bind ((yields_hashKey hrule _).bind
    ((yields_digest hrule _).bind ?_))
  rw [if_neg (not_not.mpr hkey)]
  refine (yields_verify hrule _ _ _).bind ?_
  simp only [hleaf, hlog, Bool.not_true, Bool.false_eq_true, if_false]
  refine (yields_importKey hrule _).bind ((yields_verify hrule _ _ _).bind ?_)
  simp only [hhead, Bool.not_true, Bool.false_eq_true, if_false]
  refine hquorum.bind ((yields_digest hrule _).bind ?_)
  rw [Leaf.hash] at hinclusion
  rw [hinclusion]
  exact Session.yields_pure ()

/-- A message that is accepted under the size and root hash of the tree over a list of leaves
is logged: the leaf that the submitter made for it stands in the list at the index that the
proof gives, unless a byte string hashed to build the tree and another one hashed by the
verifier for the leaf and along the path have the same digest. -/
theorem getElem?_eq_or_collision_of_verifyMessage
    {leaves : List Leaf} {message : Bytes} {submitter : PublicKey}
    (hprovider : verifier.provider.Faithful)
    (hsize : proof.treeHead.signed.treeHead.size.toNat = leaves.length)
    (hroot : proof.treeHead.signed.treeHead.rootHash =
      Merkle.root Merkle.interior (leaves.map Leaf.hash))
    (h : (verifier.verifyMessage message submitter policy proof).outcome.1 = .ok ()) :
    let index := proof.inclusion.leafIndex.toNat
    let leaf := Leaf.ofMessage message submitter proof.leaf.signature
    index < leaves.length ∧
      (leaves[index]? = some leaf ∨
        ∃ built ∈ Merkle.builtBytes leaves,
          ∃ climbed ∈ Merkle.climbedBytes leaf index (leaves.length - 1) proof.inclusion.path,
            built ≠ climbed ∧ sha256 built = sha256 climbed) := by
  intro index leaf
  let session := verifier.verifyMessage message submitter policy proof
  have hrun : session.runAfter [] = (.ok (), session.outcome.2) := Prod.ext h rfl
  obtain ⟨messageHash, afterMessage, hdigest, hverify⟩ := Session.exists_of_runAfter_bind_ok hrun
  have hmessage : messageHash = sha256 message := eq_of_digest_ok hprovider hdigest
  obtain ⟨hkey, hinclusion⟩ := gates_of_verifyHash_ok hprovider hverify
  have hleaf : proof.leaf.complete (sha256 messageHash.bytes) = leaf := by
    rw [hmessage, ShortLeaf.complete, hkey]
    rfl
  rw [hleaf] at hinclusion
  exact Merkle.getElem?_eq_or_collision_of_checkInclusion hsize hroot hinclusion

end Verifier

/-- Three leaves, by which one submitter logs three messages. -/
def Leaf.samples : List Leaf :=
  [0, 1, 2].map fun b => .ofMessage [b] (.replicate 9) (.replicate b)

/-- A proof for the last of the three sample leaves, which is carried up before it is joined. -/
def LoggingProof.sampleLast : LoggingProof where
  version := 2
  log := keyHash (.replicate 7)
  leaf := ⟨keyHash (.replicate 9), .replicate 2⟩
  treeHead := {
    signed := {
      treeHead := ⟨3, Merkle.root Merkle.interior (Leaf.samples.map Leaf.hash)⟩
      signature := .replicate 0 }
    cosignatures := LoggingProof.sample.treeHead.cosignatures }
  inclusion := ⟨2, Merkle.auditPath Merkle.interior 2 (Leaf.samples.map Leaf.hash)⟩

namespace Verifier

/-- The last of the three messages is accepted if all signatures are, and it is logged. -/
theorem verifyMessage_sampleLast :
    let verifier := ascending (.ofRule fun _ _ _ => true)
    let proof := LoggingProof.sampleLast
    let leaf := Leaf.ofMessage [2] (.replicate 9) (.replicate 2)
    verifier.provider.Faithful ∧
      proof.treeHead.signed.treeHead.size.toNat = Leaf.samples.length ∧
      proof.treeHead.signed.treeHead.rootHash =
        Merkle.root Merkle.interior (Leaf.samples.map Leaf.hash) ∧
      (verifier.verifyMessage [2] (.replicate 9) (.tree .sample) proof).outcome.1 = .ok () ∧
      2 < Leaf.samples.length ∧
      (Leaf.samples[2]? = some leaf ∨
        ∃ built ∈ Merkle.builtBytes Leaf.samples,
          ∃ climbed ∈ Merkle.climbedBytes leaf 2 2 proof.inclusion.path,
            built ≠ climbed ∧ sha256 built = sha256 climbed) := by
  intro verifier proof leaf
  have hrule : verifier.provider = .ofRule fun _ _ _ => true := rfl
  have hprovider : verifier.provider.Faithful := Provider.faithful_ofRule _
  have hget : (Leaf.samples.map Leaf.hash)[2]? = some leaf.hash := rfl
  have hclimb := Merkle.climb_auditPath Merkle.interior hget []
  rw [List.append_nil] at hclimb
  have hinclusion : Merkle.checkInclusion leaf.hash proof.inclusion.leafIndex
      proof.treeHead.signed.treeHead proof.inclusion.path = .ok () :=
    Merkle.check_eq_ok_iff.mpr ⟨by decide, hclimb⟩
  have hlog : (TrustPolicy.tree .sample).log? proof.log = some (.replicate 7) := by decide +kernel
  have hquorum : (verifier.checkQuorum (.tree .sample) proof).Yields (.ok true) := by
    have hcosigned : Policy.sample.isQuorum (proof.cosignedBy .sample fun _ _ _ => true) = true := by
      decide +kernel
    rw [← hcosigned]
    exact yields_checkQuorum_tree hrule (fun _ => List.Perm.refl _) _ _
  have haccepted : (verifier.verifyMessage [2] (.replicate 9) (.tree .sample) proof).Yields
      (.ok ()) :=
    (yields_digest hrule [2]).bind
      (yields_verifyHash_of_gates hrule rfl rfl hlog rfl hquorum hinclusion)
  exact ⟨hprovider, rfl, rfl, haccepted [],
    getElem?_eq_or_collision_of_verifyMessage hprovider rfl rfl (haccepted [])⟩

end Verifier

end WitnessedLog
