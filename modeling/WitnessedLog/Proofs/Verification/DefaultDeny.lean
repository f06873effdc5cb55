import WitnessedLog.Proofs.Policy.EmptyGroups
import WitnessedLog.Proofs.Policy.TextRoundTrip
import WitnessedLog.Proofs.Verification.TwoForms

/-!
# Default deny

A quorum rule whose groups all have members asks for somebody.  Under such a policy, given as it is
or compiled, no proof is accepted unless a cosignature of one of its witnesses was checked and
found valid.  The only empty group that a text can put into a rule is the one that it calls `none`,
and a rule with an empty group has no compiled form.
-/

namespace WitnessedLog

namespace Policy

/-- The forms in which a policy is given to a verifier: as it is, and as it is read from its
compiled form. -/
inductive Form (policy : Policy) : TrustPolicy → Prop where
  | tree : Form policy (.tree policy)
  | compiled {bytes : Bytes} {compiled : CompiledPolicy}
    (hbytes : policy.compileToBytes = .ok bytes)
    (hcompiled : CompiledPolicy.ofBytes bytes = .ok compiled) : Form policy (.compiled compiled)

/-- Nobody is a quorum under no form of a policy, and no proof is accepted for nothing. -/
structure DeniesByDefault (policy : Policy) : Prop where
  isQuorum : policy.isQuorum (fun _ => false) = false
  evaluate : ∀ bytes compiled, policy.compileToBytes = .ok bytes →
    CompiledPolicy.ofBytes bytes = .ok compiled →
      compiled.evaluate (List.replicate compiled.witnesses.length 0) = false
  verifyHash : ∀ form, policy.Form form → ∀ verifier : Verifier,
    (∀ checks, (verifier.order checks).Perm checks) → ∀ messageHash submitter proof,
      let outcome := (verifier.verifyHash messageHash submitter form proof).outcome
      outcome.1 = .ok () →
        proof.CosignedIn verifier.provider policy.witnesses.publicKeys outcome.2

variable {policy : Policy}

theorem evaluate_nobody
    {compiled : CompiledPolicy}
    (h : policy.compile = .ok compiled) (hdenies : policy.isQuorum (fun _ => false) = false) :
    compiled.evaluate (List.replicate compiled.witnesses.length 0) = false := by
  rw [← compiled.marks_nil, evaluate_marks h]
  exact hdenies

theorem Form.witnessKeys_eq
    {form : TrustPolicy}
    (hform : policy.Form form) : form.witnessKeys = policy.witnesses.publicKeys := by
  cases hform with
  | tree => rfl
  | compiled hbytes hcompiled =>
      exact TrustPolicy.witnessKeys_compiled_eq_tree (compile_eq_ok_of_ofBytes hbytes hcompiled)

theorem Form.satisfiedBy_nobody
    {form : TrustPolicy}
    (hform : policy.Form form) (hdenies : policy.isQuorum (fun _ => false) = false) :
    form.satisfiedBy [] = false := by
  cases hform with
  | tree => exact hdenies
  | compiled hbytes hcompiled =>
      exact evaluate_nobody (compile_eq_ok_of_ofBytes hbytes hcompiled) hdenies

theorem deniesByDefault_of_noEmptyGroup
    (h : policy.quorum.NoEmptyGroup) : policy.DeniesByDefault := by
  have hdenies : policy.isQuorum (fun _ => false) = false :=
    Quorum.isSatisfied_of_nobody policy.wellFormed h
  refine ⟨hdenies, ?_, ?_⟩
  · intro bytes compiled hbytes hcompiled
    exact evaluate_nobody (compile_eq_ok_of_ofBytes hbytes hcompiled) hdenies
  · intro form hform verifier horder messageHash submitter proof outcome haccepted
    have hrun : (verifier.verifyHash messageHash submitter form proof).runAfter [] =
        (.ok (), outcome.2) := Prod.ext haccepted rfl
    rw [← hform.witnessKeys_eq]
    exact Verifier.cosignedIn_of_verifyHash horder (hform.satisfiedBy_nobody hdenies) hrun

theorem noEmptyGroup_of_compileToBytes
    {bytes : Bytes}
    (h : policy.compileToBytes = .ok bytes) : policy.quorum.NoEmptyGroup := by
  obtain ⟨compiled, hcompile, -⟩ := compileToBytes_eq_ok h
  obtain ⟨numbers, hnumbers, -⟩ := compile_eq_ok hcompile
  exact Quorum.noEmptyGroup_of_numbered hnumbers

/-- A policy whose quorum has no empty group denies by default.  Such are all policies with a
compiled form and all that are read from a text that does not use the name `none`. -/
theorem denies_by_default (policy : Policy) :
    (policy.quorum.NoEmptyGroup → policy.DeniesByDefault) ∧
      (∀ text, ofText text = .ok policy → "none" ∉ namesUsed text →
        policy.quorum.NoEmptyGroup) ∧
      ∀ bytes, policy.compileToBytes = .ok bytes → policy.quorum.NoEmptyGroup :=
  ⟨deniesByDefault_of_noEmptyGroup, fun _ => noEmptyGroup_of_ofText,
    fun _ => noEmptyGroup_of_compileToBytes⟩

theorem writable_sample : sample.Writable where
  logs := by simp [sample, KeyTable.values]
  witnesses := by simp [sample, KeyTable.values]
  thresholds := by decide

/-- A verifier that takes all signatures but those of one witness of the sample for valid. -/
def sampleVerifier : Verifier :=
  .ascending (.ofRule fun key _ _ => decide (key ≠ .replicate 3))

theorem verifyHash_sampleVerifier :
    (sampleVerifier.verifyHash (.replicate 0) (.replicate 9) (.tree sample) .sample).outcome.1 =
      .ok () := by
  decide +kernel

/-- The sample has a compiled form and a text that does not use the name `none`.  A proof is
accepted, and so one of its cosignatures was found valid. -/
theorem denies_by_default_sample :
    ofText (sample.toText .plain) = .ok sample ∧ "none" ∉ namesUsed (sample.toText .plain) ∧
      sample.compileToBytes = .ok sampleBytes ∧ sample.quorum.NoEmptyGroup ∧
      sample.isQuorum (fun _ => false) = false ∧
      LoggingProof.sample.CosignedIn sampleVerifier.provider sample.witnesses.publicKeys
        (sampleVerifier.verifyHash (.replicate 0) (.replicate 9) (.tree sample)
          .sample).outcome.2 := by
  have hfresh : NameChoice.plain.FreshFor sample := NameChoice.fresh_plain.freshFor sample
  have htext : ofText (sample.toText .plain) = .ok sample := ofText_toText hfresh writable_sample
  have hunused : "none" ∉ namesUsed (textOf (sample.directives .plain)) := by
    rw [namesUsed_textOf (areWords_directives hfresh writable_sample), directives]
    simp only [List.flatMap_append, List.flatMap_map, Directive.ofWords?_logDirective,
      Directive.ofWords?_witnessDirective, Option.elim_some, Directive.uses]
    decide +kernel
  obtain ⟨hdenies, hread, -⟩ := denies_by_default sample
  have hnonempty : sample.quorum.NoEmptyGroup := hread _ htext hunused
  have hsample : sample.DeniesByDefault := hdenies hnonempty
  exact ⟨htext, hunused, compileToBytes_sample, hnonempty, hsample.isQuorum,
    hsample.verifyHash (.tree sample) .tree sampleVerifier (fun _ => List.Perm.refl _) _ _ _
      verifyHash_sampleVerifier⟩

end Policy

end WitnessedLog
