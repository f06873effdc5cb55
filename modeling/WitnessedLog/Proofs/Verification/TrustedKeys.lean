import WitnessedLog.Proofs.Verification.TwoForms

/-!
# Trust comes only from the policy

A signature counts only under the key of the submitter, of the log that the policy lists under
the name in the proof, or of a witness of the policy.  Whatever else a proof carries leaves no
trace: its version and the cosignatures of strangers change neither the calls that are made nor
the result, also when a capability fails on the way.
-/

namespace WitnessedLog

/-- The keys of the logs that a policy trusts. -/
def TrustPolicy.logKeys : TrustPolicy → List PublicKey
  | .tree policy => policy.logs.publicKeys
  | .compiled policy => policy.logs

/-- Both forms of a policy find a log by the hash of its key. -/
theorem TrustPolicy.log?_eq_find?
    (policy : TrustPolicy) (name : KeyHash) :
    policy.log? name = policy.logKeys.find? (fun key => keyHash key = name) := by
  cases policy with
  | tree policy => exact (policy.logs.find?_publicKeys name).symm
  | compiled policy => rfl

theorem TrustPolicy.mem_logKeys_of_log?
    {policy : TrustPolicy} {name : KeyHash} {key : PublicKey}
    (h : policy.log? name = some key) : key ∈ policy.logKeys ∧ keyHash key = name := by
  rw [log?_eq_find?] at h
  have hname := List.find?_some h
  exact ⟨List.mem_of_find?_eq_some h, of_decide_eq_true hname⟩

/-- Two proofs that differ at most in their versions and in cosignatures that are not filed
under the hash of a witness of the policy. -/
structure LoggingProof.AgreesUnder (policy : TrustPolicy) (proof proof' : LoggingProof) :
    Prop where
  log : proof.log = proof'.log
  leaf : proof.leaf = proof'.leaf
  signed : proof.treeHead.signed = proof'.treeHead.signed
  inclusion : proof.inclusion = proof'.inclusion
  cosignatures : ∀ key ∈ policy.witnessKeys,
    proof.treeHead.cosignatures.get? (keyHash key) =
      proof'.treeHead.cosignatures.get? (keyHash key)

/-- A call that checks no signature, or checks it under a trusted key. -/
def Call.Under (trusted : PublicKey → Prop) : Call → Prop
  | .importKey _ => True
  | .digest _ => True
  | .verify key _ _ => trusted key

namespace Verifier

variable {verifier : Verifier} {trusted : PublicKey → Prop} {policy : TrustPolicy}

/-! ## Under which keys signatures are checked -/

theorem callsOnly_importKey (key : PublicKey) :
    (verifier.importKey key).CallsOnly (Call.Under trusted) :=
  Session.callsOnly_call trivial _

theorem callsOnly_digest (data : Bytes) :
    (verifier.digest data).CallsOnly (Call.Under trusted) :=
  Session.callsOnly_call trivial _

theorem callsOnly_hashKey (key : PublicKey) :
    (verifier.hashKey key).CallsOnly (Call.Under trusted) :=
  (callsOnly_digest key.bytes).bind fun _ _ _ _ => Session.callsOnly_pure _

theorem callsOnly_verify
    {key : PublicKey}
    (h : trusted key) (signature : Signature) (message : Bytes) :
    (verifier.verify key signature message).CallsOnly (Call.Under trusted) :=
  Session.callsOnly_call h _

theorem callsOnly_gatherChecks
    (cosignatures : KeyTable Cosignature) (keys : List (PublicKey × Nat)) :
    (verifier.gatherChecks cosignatures keys).CallsOnly (Call.Under trusted) := by
  induction keys with
  | nil => exact Session.callsOnly_pure []
  | cons entry keys ih =>
      refine (callsOnly_importKey _).bind fun _ key _ _ => (callsOnly_hashKey key).bind
        fun _ witness _ _ => ih.bind fun _ checks _ _ => ?_
      cases cosignatures.get? witness with
      | none => exact Session.callsOnly_pure _
      | some cosignature => exact Session.callsOnly_pure _

theorem callsOnly_completeChecks
    (head : TreeHead) (log : KeyHash) {checks : List PendingCheck}
    (hchecks : ∀ check ∈ checks, trusted check.key) (tally : Tally) :
    (verifier.completeChecks policy head log tally checks).CallsOnly (Call.Under trusted) := by
  induction checks generalizing tally with
  | nil => exact Session.callsOnly_pure _
  | cons check checks ih =>
      obtain ⟨hcheck, hrest⟩ := List.forall_mem_cons.mp hchecks
      refine (callsOnly_verify hcheck _ _).bind fun _ valid _ _ => ?_
      cases valid with
      | false => exact ih hrest tally
      | true =>
          simp only [if_true]
          split
          · exact Session.callsOnly_pure _
          · exact ih hrest _

theorem callsOnly_checkQuorum
    (hprovider : verifier.provider.Faithful)
    (horder : ∀ checks, (verifier.order checks).Perm checks)
    (htrusted : ∀ key ∈ policy.witnessKeys, trusted key) (proof : LoggingProof) :
    (verifier.checkQuorum policy proof).CallsOnly (Call.Under trusted) := by
  simp only [checkQuorum]
  split
  · exact Session.callsOnly_pure true
  · refine (callsOnly_gatherChecks _ _).bind fun _ checks _ hgather =>
      (callsOnly_completeChecks _ _ ?_ _).bind fun _ _ _ _ => Session.callsOnly_pure _
    intro check hcheck
    obtain ⟨hmem, -⟩ := mem_gatherChecks hprovider hgather check
      ((horder checks).mem_iff.mp hcheck)
    exact htrusted check.key (List.fst_mem_of_mem_zipIdx hmem)

theorem callsOnly_verifyHash
    (hprovider : verifier.provider.Faithful)
    (horder : ∀ checks, (verifier.order checks).Perm checks)
    {submitter : PublicKey} {proof : LoggingProof}
    (hsubmitter : trusted submitter)
    (hlog : ∀ key, policy.log? proof.log = some key → trusted key)
    (hwitnesses : ∀ key ∈ policy.witnessKeys, trusted key) (messageHash : Hash) :
    (verifier.verifyHash messageHash submitter policy proof).CallsOnly (Call.Under trusted) := by
  refine (callsOnly_importKey submitter).bind fun _ key _ himport => ?_
  have hkey : key = submitter := eq_of_importKey_ok hprovider himport
  subst hkey
  refine (callsOnly_hashKey key).bind fun _ name _ _ => (callsOnly_digest _).bind
    fun _ checksum _ _ => Session.CallsOnly.gate ?_ _
  refine (callsOnly_verify hsubmitter _ _).bind fun _ leafValid _ _ =>
    Session.CallsOnly.gate ?_ _
  cases hraw : policy.log? proof.log with
  | none => exact Session.callsOnly_throw _
  | some raw =>
      refine (callsOnly_importKey raw).bind fun _ logKey _ hlogImport => ?_
      have hlogKey : logKey = raw := eq_of_importKey_ok hprovider hlogImport
      subst hlogKey
      refine (callsOnly_verify (hlog logKey hraw) _ _).bind fun _ headValid _ _ =>
        Session.CallsOnly.gate ?_ _
      refine (callsOnly_checkQuorum hprovider horder hwitnesses proof).bind
        fun _ quorum _ _ => Session.CallsOnly.gate ?_ _
      refine (callsOnly_digest _).bind fun _ leafHash _ _ => ?_
      split
      · exact Session.callsOnly_pure ()
      · exact Session.callsOnly_throw _

/-! ## What a proof carries besides -/

theorem gatherChecks_congr
    (hprovider : verifier.provider.Faithful)
    {cosignatures cosignatures' : KeyTable Cosignature} {keys : List (PublicKey × Nat)}
    (h : ∀ entry ∈ keys, cosignatures.get? (keyHash entry.1) =
      cosignatures'.get? (keyHash entry.1)) :
    verifier.gatherChecks cosignatures keys = verifier.gatherChecks cosignatures' keys := by
  induction keys with
  | nil => rfl
  | cons entry keys ih =>
      obtain ⟨hentry, hrest⟩ := List.forall_mem_cons.mp h
      unfold gatherChecks
      apply Session.bind_congr_answers
      intro _ key _ himport
      apply Session.bind_congr_answers
      intro _ witness _ hhash
      have hkey : key = entry.1 := eq_of_importKey_ok hprovider himport
      have hwitness : witness = keyHash key := eq_of_hashKey_ok hprovider hhash
      rw [ih hrest, hwitness, hkey, hentry]

theorem checkQuorum_congr
    (hprovider : verifier.provider.Faithful)
    {proof proof' : LoggingProof} (h : proof.AgreesUnder policy proof') :
    verifier.checkQuorum policy proof = verifier.checkQuorum policy proof' := by
  have hgather : verifier.gatherChecks proof.treeHead.cosignatures policy.witnessKeys.zipIdx =
      verifier.gatherChecks proof'.treeHead.cosignatures policy.witnessKeys.zipIdx :=
    gatherChecks_congr hprovider fun entry hentry =>
      h.cosignatures entry.1 (List.fst_mem_of_mem_zipIdx hentry)
  simp only [checkQuorum, hgather, h.signed, h.log]

theorem verifyHash_congr
    (hprovider : verifier.provider.Faithful)
    {proof proof' : LoggingProof} (h : proof.AgreesUnder policy proof')
    (messageHash : Hash) (submitter : PublicKey) :
    verifier.verifyHash messageHash submitter policy proof =
      verifier.verifyHash messageHash submitter policy proof' := by
  simp only [verifyHash, checkQuorum_congr hprovider h, h.log, h.leaf, h.signed, h.inclusion]

/-- Signatures are checked only under the key of the submitter, a key that the policy lists for
the log that the proof names, and keys of witnesses of the policy.  A proof that differs in its
version and in cosignatures of others leads to the same calls and the same result. -/
theorem verifyHash_trusts_policy_only
    (hprovider : verifier.provider.Faithful)
    (horder : ∀ checks, (verifier.order checks).Perm checks)
    (policy : TrustPolicy) (proof : LoggingProof) (submitter : PublicKey) (messageHash : Hash) :
    (∀ key signature message, Call.verify key signature message ∈
        (verifier.verifyHash messageHash submitter policy proof).outcome.2 →
      key = submitter ∨ (key ∈ policy.logKeys ∧ keyHash key = proof.log) ∨
        key ∈ policy.witnessKeys) ∧
      ∀ proof', proof.AgreesUnder policy proof' →
        (verifier.verifyHash messageHash submitter policy proof).outcome =
          (verifier.verifyHash messageHash submitter policy proof').outcome := by
  constructor
  · intro key signature message hcall
    let trusted : PublicKey → Prop := fun key =>
      key = submitter ∨ (key ∈ policy.logKeys ∧ keyHash key = proof.log) ∨
        key ∈ policy.witnessKeys
    have honly : (verifier.verifyHash messageHash submitter policy proof).CallsOnly
        (Call.Under trusted) := by
      apply callsOnly_verifyHash hprovider horder
      · exact Or.inl rfl
      · intro logKey hlog
        exact Or.inr (Or.inl (TrustPolicy.mem_logKeys_of_log? hlog))
      · intro witnessKey hwitness
        exact Or.inr (Or.inr hwitness)
    exact (honly [] _ hcall).resolve_left List.not_mem_nil
  · intro proof' h
    rw [verifyHash_congr hprovider h]

end Verifier

/-- The sample proof in a version that no text has, with a cosignature of a stranger. -/
def LoggingProof.sampleStranger : LoggingProof where
  version := 200
  log := LoggingProof.sample.log
  leaf := LoggingProof.sample.leaf
  treeHead := {
    signed := LoggingProof.sample.treeHead.signed
    cosignatures := LoggingProof.sample.treeHead.cosignatures.insert (keyHash (.replicate 5))
      ⟨1, .replicate 5⟩ }
  inclusion := LoggingProof.sample.inclusion

theorem LoggingProof.sample_agreesUnder_sampleStranger :
    LoggingProof.sample.AgreesUnder (.tree .sample) .sampleStranger where
  log := rfl
  leaf := rfl
  signed := rfl
  inclusion := rfl
  cosignatures := by
    intro key hkey
    have hother : ∀ key ∈ (TrustPolicy.tree .sample).witnessKeys,
        keyHash key ≠ keyHash (.replicate 5) := by decide +kernel
    rw [sampleStranger, KeyTable.get?_insert, if_neg (hother key hkey)]

namespace Verifier

/-- A capability fails at the second cosignature of a witness, whether or not a stranger
cosigned too, and until then all signatures are checked under keys of the policy. -/
theorem verifyHash_sampleStranger :
    let provider := (Provider.ofRule fun _ _ _ => true).prescribed {
      imports := []
      digests := []
      verdicts := [none, none, some (.verdict false), some (.failure (.verify "out of order"))] }
    let verifier := ascending provider
    let policy := TrustPolicy.tree .sample
    let session := verifier.verifyHash (.replicate 0) (.replicate 9) policy .sample
    provider.Faithful ∧ (∀ checks, (verifier.order checks).Perm checks) ∧
      LoggingProof.sample.AgreesUnder policy .sampleStranger ∧
      (∀ key signature message, Call.verify key signature message ∈ session.outcome.2 →
        key = .replicate 9 ∨ (key ∈ policy.logKeys ∧ keyHash key = LoggingProof.sample.log) ∨
          key ∈ policy.witnessKeys) ∧
      session.outcome =
        (verifier.verifyHash (.replicate 0) (.replicate 9) policy .sampleStranger).outcome ∧
      session.outcome.1 = .error (.crypto (.verify "out of order")) := by
  intro provider verifier policy session
  have hprovider : provider.Faithful := (Provider.faithful_ofRule _).prescribed _
  have horder : ∀ checks, (verifier.order checks).Perm checks := fun _ => List.Perm.refl _
  have hagrees : LoggingProof.sample.AgreesUnder policy .sampleStranger :=
    LoggingProof.sample_agreesUnder_sampleStranger
  obtain ⟨hkeys, hsame⟩ := verifyHash_trusts_policy_only hprovider horder policy .sample
    (.replicate 9) (.replicate 0)
  exact ⟨hprovider, horder, hagrees, hkeys, hsame .sampleStranger hagrees, by decide +kernel⟩

end Verifier

end WitnessedLog
