import WitnessedLog.Proofs.Quorum.Demand
import WitnessedLog.Proofs.Verification.CompletionOrder
import WitnessedLog.Proofs.Verification.DefaultDeny

/-!
# How many witnesses cosign an accepted proof

A policy whose quorum names no witness twice demands a number of witnesses.  With fewer of them it
is not satisfied, and with that many it can be.  The quorum gate counts a witness only for a
cosignature that was checked under the witness's own key and found valid, and no witness twice.  So
no proof is accepted for fewer valid cosignatures, under either form of the policy.
-/

namespace WitnessedLog

/-- With a faithful provider, what was checked for a witness is the cosignature under the hash of
its key. -/
theorem LoggingProof.CosignedIn.exists_accepted
    {proof : LoggingProof} {provider : Provider} {key : PublicKey} {calls : List Call}
    (h : proof.CosignedIn provider [key] calls) (hprovider : provider.Faithful) :
    ∃ cosignature, proof.treeHead.cosignatures.get? (keyHash key) = some cosignature ∧
      provider.Accepted calls key cosignature.signature (Statement.bytes
        (Statement.cosigned proof.treeHead.signed.treeHead proof.log cosignature.timestamp)) := by
  obtain ⟨raw, hraw, imported, name, cosignature, himported, hnamed, hget, haccepted⟩ := h
  cases List.mem_singleton.mp hraw
  cases hprovider.eq_of_imported himported
  cases hprovider.eq_of_named hnamed
  exact ⟨cosignature, hget, haccepted⟩

namespace Policy

variable {policy : Policy} {form : TrustPolicy}

/-- Checks satisfy a policy only if it is satisfied by no more witnesses than there are checks. -/
theorem Form.exists_isQuorum_of_satisfiedBy
    (hform : policy.Form form) {passed : List PendingCheck}
    (h : form.satisfiedBy passed = true) :
    ∃ present : Finset KeyHash, present.card ≤ passed.length ∧
      policy.isQuorum (fun name => decide (name ∈ present)) = true := by
  suffices hnames : ∃ names : List KeyHash, names.length ≤ passed.length ∧
      policy.isQuorum (fun name => names.contains name) = true by
    obtain ⟨names, hlength, hquorum⟩ := hnames
    refine ⟨names.toFinset, names.toFinset_card_le.trans hlength, ?_⟩
    simpa only [List.mem_toFinset, List.contains_eq_mem] using hquorum
  cases hform with
  | tree =>
      rw [TrustPolicy.satisfiedBy_tree] at h
      exact ⟨passed.map PendingCheck.witness, by simp, h⟩
  | @compiled _ compiled hbytes hcompiled =>
      obtain ⟨cosigned, hcosigned, hevaluate⟩ := compiled.exists_satisfiedBy_eq passed
      rw [hevaluate, compiled.found_eq_marks,
        evaluate_marks (compile_eq_ok_of_ofBytes hbytes hcompiled)] at h
      refine ⟨(compiled.witnesses.filter cosigned).map keyHash, ?_, h⟩
      -- Each of the witnesses that count stands at the position of a check.
      have hsub : compiled.witnesses.filter cosigned ⊆
          passed.filterMap fun check => compiled.witnesses[check.index]? := by
        intro key hkey
        obtain ⟨index, hindex, hget⟩ := hcosigned key (List.mem_filter.mp hkey).2
        obtain ⟨check, hcheck, rfl⟩ := List.mem_map.mp hindex
        exact List.mem_filterMap.mpr ⟨check, hcheck, hget⟩
      rw [List.length_map]
      exact ((compiled.nodup_witnesses.filter _).subperm hsub).length_le.trans
        (List.length_filterMap_le _ _)

/-- Checks at different positions are for different keys. -/
theorem nodup_map_of_positions
    {keys : List PublicKey} {passed : List PendingCheck} {raw : PendingCheck → PublicKey}
    (hkeys : keys.Nodup) (hindices : (passed.map PendingCheck.index).Nodup)
    (hraw : ∀ check ∈ passed, keys[check.index]? = some (raw check)) :
    (passed.map raw).Nodup := by
  apply List.Nodup.map_on _ hindices.of_map
  intro check hcheck other hother heq
  obtain ⟨hlt, -⟩ := List.getElem?_eq_some_iff.mp (hraw check hcheck)
  have hindex : check.index = other.index :=
    (List.getElem?_inj hlt hkeys).mp
      ((hraw check hcheck).trans (heq ▸ (hraw other hother).symm))
  exact List.inj_on_of_nodup_map hindices hcheck hother hindex

/-- A proof is accepted only for as many witnesses as the policy demands. -/
theorem Form.exists_cosigners
    (hform : policy.Form form) (hnodup : policy.quorum.names.Nodup) {verifier : Verifier}
    (horder : ∀ checks, (verifier.order checks).Perm checks)
    {messageHash : Hash} {submitter : PublicKey} {proof : LoggingProof} {calls later : List Call}
    (h : (verifier.verifyHash messageHash submitter form proof).runAfter calls =
      (.ok (), later)) :
    ∃ cosigners : Finset PublicKey, policy.quorum.demand ≤ cosigners.card ∧
      ∀ key ∈ cosigners, key ∈ policy.witnesses.publicKeys ∧
        proof.CosignedIn verifier.provider [key] later := by
  obtain ⟨before, after, hquorum, hlater⟩ := Verifier.exists_checkQuorum_of_verifyHash h
  obtain ⟨passed, hsatisfied, hindices, hpassed⟩ :=
    Verifier.exists_passed_of_checkQuorum horder hquorum
  have hnonempty : Nonempty PublicKey := ⟨.replicate 0⟩
  choose! raw hraw hcosigned using hpassed
  have hkeys : (passed.map raw).Nodup :=
    nodup_map_of_positions form.nodup_witnessKeys.of_map hindices hraw
  refine ⟨(passed.map raw).toFinset, ?_, ?_⟩
  · obtain ⟨present, hcard, hpresent⟩ := hform.exists_isQuorum_of_satisfiedBy hsatisfied
    calc
      policy.quorum.demand ≤ (present ∩ policy.quorum.names.toFinset).card :=
        Quorum.demand_le_card_inter hnodup hpresent
      _ ≤ present.card := Finset.card_le_card Finset.inter_subset_left
      _ ≤ (passed.map raw).toFinset.card := by
        rwa [List.toFinset_card_of_nodup hkeys, List.length_map]
  · intro key hkey
    obtain ⟨check, hcheck, rfl⟩ := List.mem_map.mp (List.mem_toFinset.mp hkey)
    refine ⟨?_, (hcosigned check hcheck).mono hlater⟩
    rw [← hform.witnessKeys_eq]
    exact List.mem_of_getElem? (hraw check hcheck)

/-- If the quorum of a policy names no witness twice, it is met only by sets with as many of its
witnesses as it demands, and by one set of just that many of them.  No proof is accepted under the
policy, in either form, unless that many different witnesses each have a cosignature in it that was
checked and found valid.  With a faithful provider that is the cosignature under the hash of the
witness's key. -/
theorem demands_witnesses
    {policy : Policy} (hnodup : policy.quorum.names.Nodup) :
    (∀ present : Finset KeyHash,
        policy.isQuorum (fun name => decide (name ∈ present)) = true →
          policy.quorum.demand ≤ (present ∩ policy.quorum.names.toFinset).card) ∧
      (∃ present : Finset KeyHash, present ⊆ policy.quorum.names.toFinset ∧
        present.card = policy.quorum.demand ∧
          policy.isQuorum (fun name => decide (name ∈ present)) = true) ∧
      ∀ form, policy.Form form → ∀ verifier : Verifier,
        (∀ checks, (verifier.order checks).Perm checks) → ∀ messageHash submitter proof,
          let outcome := (verifier.verifyHash messageHash submitter form proof).outcome
          let signed := proof.treeHead.signed.treeHead
          outcome.1 = .ok () →
            ∃ cosigners : Finset PublicKey, policy.quorum.demand ≤ cosigners.card ∧
              ∀ key ∈ cosigners, key ∈ policy.witnesses.publicKeys ∧
                proof.CosignedIn verifier.provider [key] outcome.2 ∧
                (verifier.provider.Faithful →
                  ∃ cosignature,
                    proof.treeHead.cosignatures.get? (keyHash key) = some cosignature ∧
                      verifier.provider.Accepted outcome.2 key cosignature.signature
                        (Statement.bytes
                          (Statement.cosigned signed proof.log cosignature.timestamp))) := by
  refine ⟨fun present => Quorum.demand_le_card_inter hnodup,
    Quorum.exists_card_eq_demand hnodup policy.wellFormed, ?_⟩
  intro form hform verifier horder messageHash submitter proof outcome signed haccepted
  have hrun : (verifier.verifyHash messageHash submitter form proof).runAfter [] =
      (.ok (), outcome.2) := Prod.ext haccepted rfl
  obtain ⟨cosigners, hdemand, hcosigners⟩ := hform.exists_cosigners hnodup horder hrun
  refine ⟨cosigners, hdemand, ?_⟩
  intro key hkey
  obtain ⟨hmem, hcosigned⟩ := hcosigners key hkey
  exact ⟨hmem, hcosigned, hcosigned.exists_accepted⟩

/-- The witnesses of the sample, of which the first has to be joined by one of the others. -/
def sampleDistinct : Policy :=
  { sample with
    quorum := .group 2 [
      .witness (keyHash (.replicate 1)),
      .group 1 [.witness (keyHash (.replicate 2)), .witness (keyHash (.replicate 3))]]
    wellFormed := by simp [Quorum.ThresholdFits]
    closed := by decide +kernel }

theorem nodup_names_sampleDistinct : sampleDistinct.quorum.names.Nodup := by
  decide +kernel

/-- A verifier that takes all signatures for valid. -/
def acceptingVerifier : Verifier :=
  .ascending (.ofRule fun _ _ _ => true)

theorem verifyHash_acceptingVerifier :
    (acceptingVerifier.verifyHash (.replicate 0) (.replicate 9) (.tree sampleDistinct)
      .sample).outcome.1 = .ok () := by
  decide +kernel

/-- Two witnesses are demanded, and for two of them a proof is accepted. -/
theorem demands_witnesses_sampleDistinct :
    sampleDistinct.quorum.names.Nodup ∧ sampleDistinct.quorum.demand = 2 ∧
      (acceptingVerifier.verifyHash (.replicate 0) (.replicate 9) (.tree sampleDistinct)
        .sample).outcome.1 = .ok () ∧
      ∃ cosigners : Finset PublicKey, 2 ≤ cosigners.card ∧
        ∀ key ∈ cosigners, key ∈ sampleDistinct.witnesses.publicKeys ∧
          LoggingProof.sample.CosignedIn acceptingVerifier.provider [key]
            (acceptingVerifier.verifyHash (.replicate 0) (.replicate 9) (.tree sampleDistinct)
              .sample).outcome.2 := by
  have hdemand : sampleDistinct.quorum.demand = 2 := by
    simp [sampleDistinct, Quorum.leastSum, List.mergeSort_of_pairwise]
  obtain ⟨-, -, hform⟩ := demands_witnesses nodup_names_sampleDistinct
  obtain ⟨cosigners, hcard, hcosigners⟩ :=
    hform (.tree sampleDistinct) .tree acceptingVerifier (fun _ => List.Perm.refl _)
      (.replicate 0) (.replicate 9) .sample verifyHash_acceptingVerifier
  refine ⟨nodup_names_sampleDistinct, hdemand, verifyHash_acceptingVerifier, cosigners,
    hdemand ▸ hcard, ?_⟩
  intro key hkey
  obtain ⟨hmem, hcosigned, -⟩ := hcosigners key hkey
  exact ⟨hmem, hcosigned⟩

end Policy

end WitnessedLog
