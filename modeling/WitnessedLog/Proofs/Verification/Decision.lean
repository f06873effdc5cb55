import WitnessedLog.Proofs.Policy.CompilerCorrectness
import WitnessedLog.Proofs.Verification.QuorumGate

/-!
# What a verifier decides

A provider that never fails judges signatures by a rule.  The verifier then decides by the
first gate that fails, and the quorum gate weighs all valid cosignatures at once, although
the verifier stops at the first quorum that it meets and the checks complete in any order.
Stopping early is sound because more cosignatures never undo a quorum.
-/

namespace WitnessedLog

/-! ## The checks of cosignatures -/

/-- The checks for those of the numbered keys that have a cosignature. -/
def pendingChecks (cosignatures : KeyTable Cosignature) (keys : List (PublicKey × Nat)) :
    List PendingCheck :=
  keys.filterMap fun entry =>
    (cosignatures.get? (keyHash entry.1)).map fun cosignature =>
      ⟨entry.2, keyHash entry.1, entry.1, cosignature⟩

section

variable (valid : PublicKey → Signature → Bytes → Bool) (head : TreeHead) (log : KeyHash)

/-- The witnesses whose checks a rule accepts. -/
def passedWitnesses (checks : List PendingCheck) : List KeyHash :=
  (checks.filter (PendingCheck.passes valid head log)).map PendingCheck.witness

end

/-- Whether a rule accepts the cosignature that a proof carries of a witness of a policy. -/
def LoggingProof.cosignedBy (proof : LoggingProof) (policy : Policy)
    (valid : PublicKey → Signature → Bytes → Bool) (name : KeyHash) : Bool :=
  match policy.witnesses.get? name, proof.treeHead.cosignatures.get? name with
  | some witness, some cosignature =>
    valid witness.publicKey cosignature.signature
      (Statement.bytes (Statement.cosigned proof.treeHead.signed.treeHead proof.log
        cosignature.timestamp))
  | _, _ => false

theorem LoggingProof.cosignedBy_eq_true_iff
    {proof : LoggingProof} {policy : Policy}
    {valid : PublicKey → Signature → Bytes → Bool} {name : KeyHash} :
    proof.cosignedBy policy valid name = true ↔
      ∃ witness cosignature, policy.witnesses.get? name = some witness ∧
        proof.treeHead.cosignatures.get? name = some cosignature ∧
        valid witness.publicKey cosignature.signature
          (Statement.bytes (Statement.cosigned proof.treeHead.signed.treeHead proof.log
            cosignature.timestamp)) = true := by
  rw [cosignedBy]
  cases policy.witnesses.get? name with
  | none => simp
  | some witness =>
      cases proof.treeHead.cosignatures.get? name with
      | none => simp
      | some cosignature => simp

/-- The witnesses whose checks pass are all those of the policy that validly cosigned. -/
theorem mem_passedWitnesses_iff
    (policy : Policy) (proof : LoggingProof)
    (valid : PublicKey → Signature → Bytes → Bool) (name : KeyHash) :
    name ∈ passedWitnesses valid proof.treeHead.signed.treeHead proof.log
        (pendingChecks proof.treeHead.cosignatures policy.witnesses.publicKeys.zipIdx) ↔
      proof.cosignedBy policy valid name = true := by
  rw [LoggingProof.cosignedBy_eq_true_iff]
  constructor
  · intro hname
    obtain ⟨check, hcheck, rfl⟩ := List.mem_map.mp hname
    obtain ⟨hpending, hpasses⟩ := List.mem_filter.mp hcheck
    obtain ⟨⟨key, index⟩, hentry, hget⟩ := List.mem_filterMap.mp hpending
    obtain ⟨cosignature, hcosignature, rfl⟩ := Option.map_eq_some_iff.mp hget
    obtain ⟨witness, hwitness, rfl⟩ :=
      Roster.mem_publicKeys_iff.mp (List.fst_mem_of_mem_zipIdx hentry)
    exact ⟨witness, cosignature, hwitness, hcosignature, hpasses⟩
  · rintro ⟨witness, cosignature, hwitness, hcosignature, hvalid⟩
    have hname : keyHash witness.publicKey = name := Roster.keyHash_eq_of_get? hwitness
    subst hname
    have hkey : witness.publicKey ∈ policy.witnesses.publicKeys :=
      Roster.mem_publicKeys_iff.mpr ⟨witness, hwitness, rfl⟩
    obtain ⟨index, hindex⟩ := List.mem_iff_getElem?.mp hkey
    refine List.mem_map.mpr ⟨⟨index, _, witness.publicKey, cosignature⟩, ?_, rfl⟩
    refine List.mem_filter.mpr ⟨?_, hvalid⟩
    refine List.mem_filterMap.mpr ⟨(witness.publicKey, index), ?_, ?_⟩
    · exact List.mk_mem_zipIdx_iff_getElem?.mpr hindex
    · rw [hcosignature]
      rfl

namespace TrustPolicy

variable (policy : Policy)

theorem satisfiedBy_tree (passed : List PendingCheck) :
    (tree policy).satisfiedBy passed =
      policy.isQuorum (fun name => (passed.map PendingCheck.witness).contains name) := by
  rw [satisfiedBy_eq, isSatisfied]
  apply Quorum.isSatisfied_congr_names
  intro name _
  rw [Bool.eq_iff_iff, List.contains_iff_mem, List.contains_iff_mem, List.mem_reverse]

/-- Once a quorum rule is satisfied it stays so, and so the last test decides. -/
theorem any_inits_satisfiedBy_tree (passed : List PendingCheck) :
    passed.inits.any (tree policy).satisfiedBy = (tree policy).satisfiedBy passed := by
  rw [Bool.eq_iff_iff, List.any_eq_true]
  constructor
  · rintro ⟨front, hfront, hsatisfied⟩
    obtain ⟨back, rfl⟩ := (List.mem_inits front passed).mp hfront
    rw [satisfiedBy_tree] at hsatisfied ⊢
    apply Quorum.isSatisfied_of_names_imp _ hsatisfied
    intro name _ hname
    rw [List.contains_iff_mem] at hname ⊢
    rw [List.map_append]
    exact List.mem_append_left _ hname
  · intro hsatisfied
    exact ⟨passed, (List.mem_inits passed passed).mpr List.prefix_rfl, hsatisfied⟩

end TrustPolicy

namespace Verifier

variable {verifier : Verifier} {valid : PublicKey → Signature → Bytes → Bool}

/-- The quorum gate weighs all valid cosignatures of the witnesses of a policy, in whatever
order their checks complete. -/
theorem yields_checkQuorum_tree
    (h : verifier.provider = .ofRule valid)
    (horder : ∀ checks, (verifier.order checks).Perm checks)
    (policy : Policy) (proof : LoggingProof) :
    (verifier.checkQuorum (.tree policy) proof).Yields
      (.ok (policy.isQuorum (proof.cosignedBy policy valid))) := by
  have hgate := yields_checkQuorum (h.trans (Provider.ofRule_eq_ofRules valid)) (.tree policy) proof
  rw [TrustPolicy.any_inits_satisfiedBy_tree, TrustPolicy.satisfiedBy_tree] at hgate
  have hall : (fun name => (passedWitnesses valid proof.treeHead.signed.treeHead proof.log
        (verifier.order (pendingChecks proof.treeHead.cosignatures
          policy.witnesses.publicKeys.zipIdx))).contains name) =
      proof.cosignedBy policy valid := by
    funext name
    rw [Bool.eq_iff_iff, List.contains_iff_mem, ← mem_passedWitnesses_iff]
    exact (((horder _).filter _).map _).mem_iff
  rw [← hall]
  exact hgate

end Verifier

/-- The decision on a proof by the first gate that fails, when signatures are judged by a
rule: the leaf names the submitter and is signed under its key, the policy lists the log,
the log signed the tree head, the witnesses with an accepted cosignature are a quorum, and
the leaf is in the tree. -/
def Policy.decision (policy : Policy) (valid : PublicKey → Signature → Bytes → Bool)
    (messageHash : Hash) (submitter : PublicKey) (proof : LoggingProof) :
    Except VerifyError Unit :=
  let checksum := sha256 messageHash.bytes
  let signed := proof.treeHead.signed
  let checkpoint := Statement.bytes (Statement.checkpoint signed.treeHead proof.log)
  if keyHash submitter ≠ proof.leaf.keyHash then .error .keyMismatch
  else if valid submitter proof.leaf.signature (Statement.leaf checksum) = false then
    .error .invalidMessageSignature
  else
    match policy.logs.get? proof.log with
    | none => .error .logNotFound
    | some log =>
      if valid log.publicKey signed.signature checkpoint = false then .error .treeHeadSignature
      else if policy.isQuorum (proof.cosignedBy policy valid) = false then
        .error .quorumNotSatisfied
      else
        (Merkle.checkInclusion (proof.leaf.complete checksum).hash proof.inclusion.leafIndex
          signed.treeHead proof.inclusion.path).mapError VerifyError.inclusion

namespace Verifier

theorem yields_inclusion
    (result : Except Merkle.InclusionError Unit) :
    (match result with
      | .ok () => pure ()
      | .error cause => throw (.inclusion cause) : Session Unit).Yields
        (result.mapError VerifyError.inclusion) := by
  cases result with
  | ok _ => exact Session.yields_pure ()
  | error cause => exact Session.yields_throw _

/-- The verifier decides by the first gate that fails, whatever the order in which the
checks of cosignatures complete. -/
theorem verifyHash_eq_decision
    (policy : Policy) (proof : LoggingProof) (submitter : PublicKey) (messageHash : Hash)
    (valid : PublicKey → Signature → Bytes → Bool)
    {order : List PendingCheck → List PendingCheck}
    (horder : ∀ checks, (order checks).Perm checks) :
    ((Verifier.mk (.ofRule valid) order).verifyHash messageHash submitter (.tree policy)
        proof).outcome.1 =
      policy.decision valid messageHash submitter proof := by
  let verifier : Verifier := ⟨.ofRule valid, order⟩
  have h : verifier.provider = .ofRule valid := rfl
  suffices hyields : (verifier.verifyHash messageHash submitter (.tree policy) proof).Yields
      (policy.decision valid messageHash submitter proof) from hyields []
  unfold verifyHash Policy.decision
  refine (yields_importKey h _).bind ((yields_hashKey h _).bind ((yields_digest h _).bind ?_))
  by_cases hkey : keyHash submitter ≠ proof.leaf.keyHash
  · rw [if_pos hkey.symm, if_pos hkey]
    exact Session.yields_throw_bind _ _
  rw [if_neg (fun hne => hkey (Ne.symm hne)), if_neg hkey]
  refine (yields_verify h _ _ _).bind ?_
  cases hleaf : valid submitter proof.leaf.signature
      (Statement.leaf (sha256 messageHash.bytes)) with
  | false => exact Session.yields_throw_bind _ _
  | true =>
      simp only [TrustPolicy.log?]
      cases hlog : policy.logs.get? proof.log with
      | none => exact Session.yields_throw _
      | some log =>
          simp only [Option.map_some, Bool.not_true, Bool.true_eq_false, Bool.false_eq_true,
            if_false]
          refine (yields_importKey h _).bind ((yields_verify h _ _ _).bind ?_)
          cases hhead : valid log.publicKey proof.treeHead.signed.signature (Statement.bytes
              (Statement.checkpoint proof.treeHead.signed.treeHead proof.log)) with
          | false => exact Session.yields_throw_bind _ _
          | true =>
              refine (yields_checkQuorum_tree h horder policy proof).bind ?_
              cases hquorum : policy.isQuorum (proof.cosignedBy policy valid) with
              | false => exact Session.yields_throw_bind _ _
              | true => exact (yields_digest h _).bind (yields_inclusion _)

end Verifier

/-- A proof for the only leaf of a log, cosigned by two witnesses of the sample policy. -/
def LoggingProof.sample : LoggingProof where
  version := 2
  log := keyHash (.replicate 7)
  leaf := ⟨keyHash (.replicate 9), .replicate 0⟩
  treeHead := {
    signed := {
      treeHead := {
        size := 1
        rootHash :=
          (Leaf.mk (sha256 (.replicate 32 0)) (.replicate 0) (keyHash (.replicate 9))).hash }
      signature := .replicate 0 }
    cosignatures := {
      entries := [3, 1].map fun b => (keyHash (.replicate b), ⟨0, .replicate 0⟩)
      ascending := by decide +kernel } }
  inclusion := ⟨0, []⟩

namespace Verifier

/-- A signature of one cosigner is refused, and the other suffices, whoever is checked
first. -/
theorem verifyHash_sample_reversed :
    let valid := fun key _ _ => decide (key ≠ .replicate 3)
    (∀ checks : List PendingCheck, checks.reverse.Perm checks) ∧
      ((Verifier.mk (.ofRule valid) List.reverse).verifyHash (.replicate 0) (.replicate 9)
          (.tree .sample) .sample).outcome.1 =
        Policy.sample.decision valid (.replicate 0) (.replicate 9) .sample ∧
      Policy.sample.decision valid (.replicate 0) (.replicate 9) .sample = .ok () :=
  ⟨List.reverse_perm, verifyHash_eq_decision _ _ _ _ _ List.reverse_perm, by decide +kernel⟩

end Verifier

end WitnessedLog
