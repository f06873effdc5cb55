import WitnessedLog.Proofs.Verification.Failures

/-!
# Evidence in the calls

A session keeps its calls, so what it found can be told from them: each answer that it relied on
was given to one of the calls.  A check that the quorum gate completes is for a key that was
imported from the policy and for a cosignature that the proof carries under the hash of that key.
If the gate is passed although nobody had to cosign at first, then one of these checks has passed.
-/

namespace WitnessedLog

/-- A call is among those made, and this was the answer to it. -/
def Call.Answered {α : Type} (request : Call) (answer : List Call → Except CryptoError α) (a : α)
    (calls : List Call) : Prop :=
  ∃ front, front ++ [request] <+: calls ∧ answer front = .ok a

namespace Call

variable {α : Type} {request : Call} {answer : List Call → Except CryptoError α} {a : α}
  {calls later : List Call}

theorem Answered.mono
    (h : request.Answered answer a calls) (hlater : calls <+: later) :
    request.Answered answer a later := by
  obtain ⟨front, hfront, hanswer⟩ := h
  exact ⟨front, hfront.trans hlater, hanswer⟩

theorem answered_of_run
    (h : (Session.call request answer).runAfter calls = (.ok a, later)) :
    request.Answered answer a later := by
  obtain ⟨hanswer, rfl⟩ := Session.runAfter_call_eq_ok_iff.mp h
  exact ⟨calls, List.prefix_rfl, hanswer⟩

end Call

namespace Provider

variable (provider : Provider) (calls : List Call)

/-- A key was imported, as this one. -/
def Imported (raw key : PublicKey) : Prop :=
  (Call.importKey raw).Answered (fun earlier => provider.importKey earlier raw) key calls

/-- A key was hashed to this name. -/
def Named (key : PublicKey) (name : KeyHash) : Prop :=
  ∃ hash : Hash, hash.asKeyHash = name ∧
    (Call.digest key.bytes).Answered (fun earlier => provider.digest earlier key.bytes) hash calls

/-- A signature was checked and found valid. -/
def Accepted (key : PublicKey) (signature : Signature) (message : Bytes) : Prop :=
  (Call.verify key signature message).Answered
    (fun earlier => provider.verify earlier key signature message) true calls

variable {provider calls}

theorem Named.mono
    {later : List Call} {key : PublicKey} {name : KeyHash}
    (h : provider.Named calls key name) (hlater : calls <+: later) :
    provider.Named later key name := by
  obtain ⟨hash, hname, hanswered⟩ := h
  exact ⟨hash, hname, hanswered.mono hlater⟩

theorem Faithful.eq_of_imported
    (hprovider : provider.Faithful) {raw key : PublicKey} (h : provider.Imported calls raw key) :
    key = raw := by
  obtain ⟨front, -, hanswer⟩ := h
  exact hprovider.importKey front raw key hanswer

theorem Faithful.eq_of_named
    (hprovider : provider.Faithful) {key : PublicKey} {name : KeyHash}
    (h : provider.Named calls key name) : name = keyHash key := by
  obtain ⟨hash, rfl, front, -, hanswer⟩ := h
  rw [hprovider.digest front key.bytes hash hanswer]
  rfl

end Provider

/-- A check that was gathered for one of the numbered keys: the key was imported and hashed, and
under its hash there is a cosignature. -/
structure PendingCheck.Gathered (check : PendingCheck) (provider : Provider)
    (cosignatures : KeyTable Cosignature) (keys : List (PublicKey × Nat)) (calls : List Call) :
    Prop where
  imported : ∃ raw, (raw, check.index) ∈ keys ∧ provider.Imported calls raw check.key
  named : provider.Named calls check.key check.witness
  cosignature : cosignatures.get? check.witness = some check.cosignature

theorem PendingCheck.Gathered.mono
    {check : PendingCheck} {provider : Provider} {cosignatures : KeyTable Cosignature}
    {keys more : List (PublicKey × Nat)} {calls later : List Call}
    (h : check.Gathered provider cosignatures keys calls) (hkeys : keys ⊆ more)
    (hlater : calls <+: later) : check.Gathered provider cosignatures more later where
  imported := by
    obtain ⟨raw, hmem, himported⟩ := h.imported
    exact ⟨raw, hkeys hmem, himported.mono hlater⟩
  named := h.named.mono hlater
  cosignature := h.cosignature

/-- A cosignature that a proof carries was checked under one of the given keys, which is known by
the name of the cosignature, and it was found valid. -/
def LoggingProof.CosignedIn (proof : LoggingProof) (provider : Provider)
    (witnesses : List PublicKey) (calls : List Call) : Prop :=
  ∃ raw ∈ witnesses, ∃ key name cosignature,
    provider.Imported calls raw key ∧ provider.Named calls key name ∧
      proof.treeHead.cosignatures.get? name = some cosignature ∧
      provider.Accepted calls key cosignature.signature (Statement.bytes
        (Statement.cosigned proof.treeHead.signed.treeHead proof.log cosignature.timestamp))

theorem LoggingProof.CosignedIn.mono
    {proof : LoggingProof} {provider : Provider} {witnesses : List PublicKey}
    {calls later : List Call}
    (h : proof.CosignedIn provider witnesses calls) (hlater : calls <+: later) :
    proof.CosignedIn provider witnesses later := by
  obtain ⟨raw, hraw, key, name, cosignature, himported, hnamed, hget, haccepted⟩ := h
  exact ⟨raw, hraw, key, name, cosignature, himported.mono hlater, hnamed.mono hlater, hget,
    haccepted.mono hlater⟩

theorem LoggingProof.CosignedIn.of_subset
    {proof : LoggingProof} {provider : Provider} {witnesses more : List PublicKey}
    {calls : List Call}
    (h : proof.CosignedIn provider witnesses calls) (hsub : witnesses ⊆ more) :
    proof.CosignedIn provider more calls := by
  obtain ⟨raw, hraw, hcosigned⟩ := h
  exact ⟨raw, hsub hraw, hcosigned⟩

namespace Verifier

variable {verifier : Verifier} {policy : TrustPolicy} {proof : LoggingProof}
  {calls later : List Call}

theorem named_of_hashKey
    {key : PublicKey} {name : KeyHash}
    (h : (verifier.hashKey key).runAfter calls = (.ok name, later)) :
    verifier.provider.Named later key name := by
  obtain ⟨hash, between, hdigest, hpure⟩ := Session.exists_of_runAfter_bind_ok h
  cases hpure
  exact ⟨hash, rfl, Call.answered_of_run hdigest⟩

theorem gathered_of_gatherChecks
    {cosignatures : KeyTable Cosignature} {keys : List (PublicKey × Nat)}
    {checks : List PendingCheck}
    (h : (verifier.gatherChecks cosignatures keys).runAfter calls = (.ok checks, later)) :
    ∀ check ∈ checks, check.Gathered verifier.provider cosignatures keys later := by
  induction keys generalizing calls later checks with
  | nil =>
      cases h
      simp
  | cons entry keys ih =>
      obtain ⟨raw, index⟩ := entry
      obtain ⟨key, afterImport, himport, h⟩ := Session.exists_of_runAfter_bind_ok h
      obtain ⟨witness, afterHash, hhash, h⟩ := Session.exists_of_runAfter_bind_ok h
      obtain ⟨rest, afterRest, hrest, h⟩ := Session.exists_of_runAfter_bind_ok h
      have hafterHash : afterImport <+: afterHash := (verifier.heeds_hashKey key).extends_calls hhash
      have hafterRest : afterHash <+: afterRest :=
        (verifier.heeds_gatherChecks _ _).extends_calls hrest
      have himported : verifier.provider.Imported afterRest raw key :=
        (Call.answered_of_run himport).mono (hafterHash.trans hafterRest)
      have hnamed : verifier.provider.Named afterRest key witness :=
        (named_of_hashKey hhash).mono hafterRest
      have hchecks : ∀ check ∈ rest,
          check.Gathered verifier.provider cosignatures ((raw, index) :: keys) afterRest := by
        intro check hcheck
        exact (ih hrest check hcheck).mono (List.subset_cons_self _ _) List.prefix_rfl
      cases hget : cosignatures.get? witness with
      | none =>
          simp only [hget] at h
          cases h
          exact hchecks
      | some cosignature =>
          simp only [hget] at h
          cases h
          exact List.forall_mem_cons.mpr
            ⟨⟨⟨raw, List.mem_cons_self, himported⟩, hnamed, hget⟩, hchecks⟩

/-- The checks are numbered as the keys that they were gathered for. -/
theorem sublist_of_gatherChecks
    {cosignatures : KeyTable Cosignature} {keys : List (PublicKey × Nat)}
    {checks : List PendingCheck}
    (h : (verifier.gatherChecks cosignatures keys).runAfter calls = (.ok checks, later)) :
    (checks.map PendingCheck.index).Sublist (keys.map Prod.snd) := by
  induction keys generalizing calls later checks with
  | nil =>
      cases h
      exact List.Sublist.refl _
  | cons entry keys ih =>
      obtain ⟨raw, index⟩ := entry
      obtain ⟨key, afterImport, -, h⟩ := Session.exists_of_runAfter_bind_ok h
      obtain ⟨witness, afterHash, -, h⟩ := Session.exists_of_runAfter_bind_ok h
      obtain ⟨rest, afterRest, hrest, h⟩ := Session.exists_of_runAfter_bind_ok h
      cases hget : cosignatures.get? witness with
      | none =>
          simp only [hget] at h
          cases h
          exact (ih hrest).cons index
      | some cosignature =>
          simp only [hget] at h
          cases h
          exact (ih hrest).cons_cons index

/-- Checks that come to a quorum come to it with some that pass. -/
theorem exists_passed_of_completeChecks
    {head : TreeHead} {log : KeyHash} {checks passed : List PendingCheck} {final : Tally}
    (h : (verifier.completeChecks policy head log
        (Tally.ofPassed policy.witnessKeys.length passed) checks).runAfter calls =
      (.ok (true, final), later)) :
    ∃ more : List PendingCheck, more.Sublist checks ∧ policy.satisfiedBy (passed ++ more) = true ∧
      ∀ check ∈ more, verifier.provider.Accepted later check.key check.cosignature.signature
        (Statement.bytes (Statement.cosigned head log check.cosignature.timestamp)) := by
  induction checks generalizing passed calls with
  | nil => cases h
  | cons check checks ih =>
      obtain ⟨valid, between, hverify, h⟩ := Session.exists_of_runAfter_bind_ok h
      cases valid with
      | false =>
          obtain ⟨more, hsub, hrest⟩ := ih h
          exact ⟨more, hsub.cons check, hrest⟩
      | true =>
          have haccepted := Call.answered_of_run hverify
          simp only [if_true, policy.isSatisfied_add] at h
          cases hnext : policy.satisfiedBy (passed ++ [check]) with
          | true =>
              rw [if_pos hnext] at h
              cases h
              refine ⟨[check], (List.nil_sublist checks).cons_cons check, hnext, ?_⟩
              rwa [List.forall_mem_singleton]
          | false =>
              rw [if_neg (ne_true_of_eq_false hnext), ← Tally.ofPassed_concat] at h
              have hlater := (verifier.heeds_completeChecks policy _ _ _ _).extends_calls h
              obtain ⟨more, hsub, hsatisfied, hmore⟩ := ih h
              refine ⟨check :: more, hsub.cons_cons check, ?_, ?_⟩
              · rwa [List.append_cons]
              · exact List.forall_mem_cons.mpr ⟨haccepted.mono hlater, hmore⟩

/-- A quorum is met by checks that passed, no two of them for the same witness.  Each found a
cosignature of its witness. -/
theorem exists_passed_of_checkQuorum
    (horder : ∀ checks, (verifier.order checks).Perm checks)
    (h : (verifier.checkQuorum policy proof).runAfter calls = (.ok true, later)) :
    ∃ passed : List PendingCheck, policy.satisfiedBy passed = true ∧
      (passed.map PendingCheck.index).Nodup ∧
        ∀ check ∈ passed, ∃ raw, policy.witnessKeys[check.index]? = some raw ∧
          proof.CosignedIn verifier.provider [raw] later := by
  rw [checkQuorum_eq] at h
  cases hnobody : policy.satisfiedBy [] with
  | true => exact ⟨[], hnobody, List.nodup_nil, by simp⟩
  | false =>
      rw [hnobody, if_neg Bool.false_ne_true] at h
      obtain ⟨checks, between, hgather, h⟩ := Session.exists_of_runAfter_bind_ok h
      obtain ⟨⟨satisfied, final⟩, _, hcomplete, h⟩ := Session.exists_of_runAfter_bind_ok h
      cases h
      have hlater : between <+: later :=
        (verifier.heeds_completeChecks policy _ _ _ _).extends_calls hcomplete
      obtain ⟨passed, hsub, hsatisfied, haccepted⟩ := exists_passed_of_completeChecks hcomplete
      refine ⟨passed, hsatisfied, ?_, ?_⟩
      · have hindices := sublist_of_gatherChecks hgather
        rw [List.zipIdx_map_snd] at hindices
        exact ((hindices.nodup List.nodup_range').perm
          ((horder checks).map _).symm).sublist (hsub.map _)
      · intro check hcheck
        have hgathered :=
          gathered_of_gatherChecks hgather check ((horder checks).subset (hsub.subset hcheck))
        obtain ⟨raw, hraw, himported⟩ := hgathered.imported
        exact ⟨raw, List.mk_mem_zipIdx_iff_getElem?.mp hraw, raw, List.mem_singleton_self raw,
          check.key, check.witness, check.cosignature, himported.mono hlater,
          hgathered.named.mono hlater, hgathered.cosignature, haccepted check hcheck⟩

/-- A proof that is accepted has passed the quorum gate on the way. -/
theorem exists_checkQuorum_of_verifyHash
    {messageHash : Hash} {submitter : PublicKey}
    (h : (verifier.verifyHash messageHash submitter policy proof).runAfter calls =
      (.ok (), later)) :
    ∃ before after, (verifier.checkQuorum policy proof).runAfter before = (.ok true, after) ∧
      after <+: later := by
  obtain ⟨key, afterImport, -, h⟩ := Session.exists_of_runAfter_bind_ok h
  obtain ⟨name, afterName, -, h⟩ := Session.exists_of_runAfter_bind_ok h
  obtain ⟨checksum, afterChecksum, -, h⟩ := Session.exists_of_runAfter_bind_ok h
  obtain ⟨-, h⟩ := Session.of_runAfter_gate_ok h
  obtain ⟨leafValid, afterLeaf, -, h⟩ := Session.exists_of_runAfter_bind_ok h
  obtain ⟨-, h⟩ := Session.of_runAfter_gate_ok h
  cases hlog : policy.log? proof.log with
  | none =>
      simp only [hlog] at h
      cases h
  | some raw =>
      simp only [hlog] at h
      obtain ⟨logKey, afterLog, -, h⟩ := Session.exists_of_runAfter_bind_ok h
      obtain ⟨headValid, afterHead, -, h⟩ := Session.exists_of_runAfter_bind_ok h
      obtain ⟨-, h⟩ := Session.of_runAfter_gate_ok h
      obtain ⟨quorum, afterQuorum, hquorum, h⟩ := Session.exists_of_runAfter_bind_ok h
      obtain ⟨hmet, h⟩ := Session.of_runAfter_gate_ok h
      cases quorum with
      | false => exact absurd rfl hmet
      | true =>
          exact ⟨afterHead, afterQuorum, hquorum,
            ((verifier.heeds_digest _).bind fun _ => heeds_inclusion _ _).extends_calls h⟩

/-- If nobody is no quorum, a proof is accepted for a cosignature of somebody. -/
theorem cosignedIn_of_verifyHash
    (horder : ∀ checks, (verifier.order checks).Perm checks)
    (hnobody : policy.satisfiedBy [] = false) {messageHash : Hash} {submitter : PublicKey}
    (h : (verifier.verifyHash messageHash submitter policy proof).runAfter calls =
      (.ok (), later)) :
    proof.CosignedIn verifier.provider policy.witnessKeys later := by
  obtain ⟨before, after, hquorum, hlater⟩ := exists_checkQuorum_of_verifyHash h
  obtain ⟨passed, hsatisfied, -, hpassed⟩ := exists_passed_of_checkQuorum horder hquorum
  cases passed with
  | nil => simp [hsatisfied] at hnobody
  | cons check rest =>
      obtain ⟨raw, hraw, hcosigned⟩ := hpassed check List.mem_cons_self
      exact (hcosigned.of_subset (by simp [List.mem_of_getElem? hraw])).mono hlater

end Verifier

end WitnessedLog
