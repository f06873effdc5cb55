import WitnessedLog.Proofs.Verification.Evidence

/-!
# Verifying under either form of a policy

A policy and its compiled form list the same keys, and what was found for the witnesses is
the same set told twice.  A verifier that keeps both accounts in step therefore calls the
same capabilities and comes to the same result whichever form it is given.
-/

namespace WitnessedLog

/-- Among keys with different hashes, marking one at its position adds it to the set of those
that are marked. -/
theorem map_mark_cons
    {keys : List PublicKey} {index : Nat} {key : PublicKey}
    (hnodup : (keys.map keyHash).Nodup) (hkey : keys[index]? = some key)
    (present : List KeyHash) :
    (keys.map fun other => if (keyHash key :: present).contains (keyHash other) then 1 else 0) =
      (keys.map fun other => if present.contains (keyHash other) then (1 : UInt8) else 0).set
        index 1 := by
  apply List.ext_getElem?
  intro other
  obtain ⟨hlt, hget⟩ := List.getElem?_eq_some_iff.mp hkey
  rw [List.getElem?_set]
  by_cases hother : index = other
  · subst hother
    rw [if_pos rfl, if_pos (by rwa [List.length_map]), List.getElem?_map, hkey]
    simp
  · rw [if_neg hother, List.getElem?_map, List.getElem?_map]
    cases hgetOther : keys[other]? with
    | none => rfl
    | some otherKey =>
        have hne : keyHash otherKey ≠ keyHash key := by
          intro heq
          apply hother
          apply (List.getElem?_inj (by rwa [List.length_map]) hnodup).mp
          rw [List.getElem?_map, List.getElem?_map, hkey, hgetOther, Option.map_some,
            Option.map_some, heq]
        simp [hne]

namespace CompiledPolicy

variable (compiled : CompiledPolicy)

theorem marks_nil :
    compiled.marks (fun name => [].contains name) = List.replicate compiled.witnesses.length 0 := by
  simp [marks, List.map_const']

/-- The witnesses of a compiled policy have different hashes. -/
theorem nodup_map_keyHash_witnesses : (compiled.witnesses.map keyHash).Nodup :=
  Octets.nodup_of_pairwise_lt compiled.witnesses_ascending

/-- Marking a witness at its position adds it to the set. -/
theorem marks_cons
    {index : Nat} {key : PublicKey}
    (hkey : compiled.witnesses[index]? = some key) (present : List KeyHash) :
    compiled.marks (fun name => (keyHash key :: present).contains name) =
      (compiled.marks (fun name => present.contains name)).set index 1 :=
  map_mark_cons compiled.nodup_map_keyHash_witnesses hkey present

end CompiledPolicy

namespace TrustPolicy

/-- The witnesses of a policy stand in ascending order of their hashes. -/
theorem pairwise_witnessKeys
    (policy : TrustPolicy) : (policy.witnessKeys.map keyHash).Pairwise (· < ·) := by
  cases policy with
  | tree policy =>
      rw [witnessKeys, Roster.map_keyHash_publicKeys, KeyTable.keys, List.pairwise_map]
      exact policy.witnesses.ascending
  | compiled compiled => exact compiled.witnesses_ascending

theorem nodup_witnessKeys (policy : TrustPolicy) : (policy.witnessKeys.map keyHash).Nodup :=
  Octets.nodup_of_pairwise_lt policy.pairwise_witnessKeys

variable {policy : Policy} {compiled : CompiledPolicy}

theorem log?_compiled_eq_tree
    (h : policy.compile = .ok compiled) (name : KeyHash) :
    (TrustPolicy.compiled compiled).log? name = (TrustPolicy.tree policy).log? name := by
  obtain ⟨-, -, -, hlogs, -, -⟩ := Policy.compile_eq_ok h
  rw [log?, log?, CompiledPolicy.log?, hlogs, Roster.find?_publicKeys]

theorem witnessKeys_compiled_eq_tree
    (h : policy.compile = .ok compiled) :
    (TrustPolicy.compiled compiled).witnessKeys = (TrustPolicy.tree policy).witnessKeys := by
  obtain ⟨-, -, -, -, hwitnesses, -⟩ := Policy.compile_eq_ok h
  exact hwitnesses

/-- Both forms decide alike as long as the marks tell the same set as the list. -/
theorem isSatisfied_compiled_eq_tree
    (h : policy.compile = .ok compiled) {present : List KeyHash} {found : Bytes}
    (hfound : found = compiled.marks (fun name => present.contains name)) :
    (TrustPolicy.compiled compiled).isSatisfied present found =
      (TrustPolicy.tree policy).isSatisfied present found := by
  rw [isSatisfied, isSatisfied, hfound, Policy.evaluate_marks h]

end TrustPolicy

namespace Verifier

variable {verifier : Verifier} {policy : Policy} {compiled : CompiledPolicy}

/-- With a faithful provider, what is gathered are witnesses of the policy under their own
hashes. -/
theorem mem_gatherChecks
    (hprovider : verifier.provider.Faithful)
    {cosignatures : KeyTable Cosignature} {keys : List (PublicKey × Nat)}
    {calls later : List Call} {checks : List PendingCheck}
    (h : (verifier.gatherChecks cosignatures keys).runAfter calls = (.ok checks, later)) :
    ∀ check ∈ checks, (check.key, check.index) ∈ keys ∧ check.witness = keyHash check.key := by
  intro check hcheck
  have hgathered := gathered_of_gatherChecks h check hcheck
  obtain ⟨raw, hmem, himported⟩ := hgathered.imported
  have hkey : check.key = raw := hprovider.eq_of_imported himported
  exact ⟨hkey ▸ hmem, hprovider.eq_of_named hgathered.named⟩

/-- Checks are completed alike under both forms, as long as the marks tell the same set as
the list and each check is for the witness at its position. -/
theorem completeChecks_compiled_eq_tree
    (h : policy.compile = .ok compiled) (head : TreeHead) (log : KeyHash)
    {checks : List PendingCheck} {tally : Tally}
    (hchecks : ∀ check ∈ checks,
      compiled.witnesses[check.index]? = some check.key ∧ check.witness = keyHash check.key)
    (hfound : tally.found = compiled.marks (fun name => tally.present.contains name)) :
    verifier.completeChecks (.compiled compiled) head log tally checks =
      verifier.completeChecks (.tree policy) head log tally checks := by
  induction checks generalizing tally with
  | nil => rfl
  | cons check checks ih =>
      obtain ⟨⟨hkey, hwitness⟩, hrest⟩ := List.forall_mem_cons.mp hchecks
      have hmarks : (tally.add check).found =
          compiled.marks (fun name => (tally.add check).present.contains name) := by
        rw [Tally.add, hfound, hwitness, compiled.marks_cons hkey]
      unfold completeChecks
      apply bind_congr
      intro valid
      simp only [TrustPolicy.isSatisfied_compiled_eq_tree h hmarks, ih hrest hmarks,
        ih hrest hfound]

theorem checkQuorum_compiled_eq_tree
    (hprovider : verifier.provider.Faithful)
    (horder : ∀ checks, ∀ check ∈ verifier.order checks, check ∈ checks)
    (h : policy.compile = .ok compiled) (proof : LoggingProof) :
    verifier.checkQuorum (.compiled compiled) proof =
      verifier.checkQuorum (.tree policy) proof := by
  have hfound : (Tally.nobody (TrustPolicy.tree policy).witnessKeys.length).found =
      compiled.marks (fun name =>
        (Tally.nobody (TrustPolicy.tree policy).witnessKeys.length).present.contains name) := by
    rw [Tally.nobody, ← TrustPolicy.witnessKeys_compiled_eq_tree h, compiled.marks_nil]
    rfl
  simp only [checkQuorum, TrustPolicy.witnessKeys_compiled_eq_tree h,
    TrustPolicy.isSatisfied_compiled_eq_tree h hfound]
  split
  · rfl
  · apply Session.bind_congr_answers
    intro calls checks later hgather
    refine congrArg (· >>= fun completed => pure completed.1)
      (completeChecks_compiled_eq_tree h _ _ ?_ hfound)
    intro check hcheck
    obtain ⟨hmem, hwitness⟩ := mem_gatherChecks hprovider hgather check (horder checks check hcheck)
    refine ⟨?_, hwitness⟩
    rw [← TrustPolicy.witnessKeys_compiled_eq_tree h] at hmem
    exact List.mem_zipIdx_iff_getElem?.mp hmem

/-- Under either form of a policy the same capabilities are called with the same arguments,
and the result is the same. -/
theorem verifyHash_compiled_eq_tree
    (hprovider : verifier.provider.Faithful)
    (horder : ∀ checks, ∀ check ∈ verifier.order checks, check ∈ checks)
    (h : policy.compile = .ok compiled)
    (messageHash : Hash) (submitter : PublicKey) (proof : LoggingProof) :
    verifier.verifyHash messageHash submitter (.compiled compiled) proof =
      verifier.verifyHash messageHash submitter (.tree policy) proof := by
  simp only [verifyHash, TrustPolicy.log?_compiled_eq_tree h,
    checkQuorum_compiled_eq_tree hprovider horder h]

/-- A policy and what is read from its compiled form lead to the same calls and the same
result, also when a capability fails midway. -/
theorem outcome_compiled_eq_tree
    {policy : Policy} {bytes : Bytes} {compiled : CompiledPolicy} {provider : Provider}
    (hbytes : policy.compileToBytes = .ok bytes)
    (hcompiled : CompiledPolicy.ofBytes bytes = .ok compiled)
    (hprovider : provider.Faithful)
    (messageHash : Hash) (submitter : PublicKey) (proof : LoggingProof) :
    ((ascending provider).verifyHash messageHash submitter (.tree policy) proof).outcome =
      ((ascending provider).verifyHash messageHash submitter (.compiled compiled)
        proof).outcome := by
  have hcompile : policy.compile = .ok compiled := Policy.compile_eq_ok_of_ofBytes hbytes hcompiled
  have horder : ∀ checks, ∀ check ∈ (ascending provider).order checks, check ∈ checks :=
    fun _ _ hcheck => hcheck
  rw [verifyHash_compiled_eq_tree hprovider horder hcompile]

/-- A capability that fails at the second cosignature ends the verification under both
forms. -/
theorem outcome_sample_failing :
    let provider := Provider.standard.prescribed {
      imports := []
      digests := []
      verdicts := [some (.verdict true), some (.verdict true), some (.verdict false),
        some (.failure (.verify "out of order"))] }
    ∃ compiled, Policy.sample.compileToBytes = .ok Policy.sampleBytes ∧
      CompiledPolicy.ofBytes Policy.sampleBytes = .ok compiled ∧
      ((ascending provider).verifyHash (.replicate 0) (.replicate 9) (.tree .sample)
          .sample).outcome =
        ((ascending provider).verifyHash (.replicate 0) (.replicate 9) (.compiled compiled)
          .sample).outcome ∧
      ((ascending provider).verifyHash (.replicate 0) (.replicate 9) (.tree .sample)
          .sample).outcome.1 =
        .error (.crypto (.verify "out of order")) := by
  intro provider
  obtain ⟨compiled, -, hbytes⟩ := Policy.compileToBytes_eq_ok Policy.compileToBytes_sample
  have hcompiled : CompiledPolicy.ofBytes Policy.sampleBytes = .ok compiled := by
    rw [hbytes, compiled.ofBytes_toBytes]
  have hprovider : provider.Faithful := (Provider.faithful_ofRule _).prescribed _
  exact ⟨compiled, Policy.compileToBytes_sample, hcompiled,
    outcome_compiled_eq_tree Policy.compileToBytes_sample hcompiled hprovider _ _ _,
    by decide +kernel⟩

end Verifier

end WitnessedLog
