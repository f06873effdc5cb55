import Mathlib.Data.List.Nodup
import WitnessedLog.Proofs.Verification.TwoForms

/-!
# The order in which checks complete

A compiled policy may carry any quorum program, and the gate tests it after every cosignature
that passes.  A program for which more witnesses can undo a quorum may be met by the first few
witnesses and not by all, so what the gate decides can depend on the order in which the checks
complete.  It decides as one evaluation over all valid cosignatures, in every order, exactly if
all of them satisfy the program or no part of them does.  The programs of compiled quorum rules
are of this kind.
-/

namespace WitnessedLog

/-- Whether rules accept the cosignature that a proof carries of the witness with a given
key. -/
def AnswerRules.cosigned (rules : AnswerRules) (proof : LoggingProof) (raw : PublicKey) : Bool :=
  let key := rules.importKey raw
  match proof.treeHead.cosignatures.get? (rules.keyHash key) with
  | some cosignature =>
    rules.valid key cosignature.signature
      (Statement.bytes (Statement.cosigned proof.treeHead.signed.treeHead proof.log
        cosignature.timestamp))
  | none => false

/-- What is found for the witnesses of a compiled policy: a one for those who cosigned. -/
def CompiledPolicy.found (policy : CompiledPolicy) (cosigned : PublicKey → Bool) : Bytes :=
  policy.witnesses.map fun key => if cosigned key then 1 else 0

namespace AnswerRules

variable {rules : AnswerRules} {order : List PendingCheck → List PendingCheck}
  {policy : TrustPolicy} {proof : LoggingProof}

/-- The checks that pass are those of the witnesses with a valid cosignature. -/
theorem index_mem_passing_iff
    (horder : ∀ checks, (order checks).Perm checks) {index : Nat} :
    index ∈ (rules.passing order policy proof).map PendingCheck.index ↔
      ∃ raw, policy.witnessKeys[index]? = some raw ∧ rules.cosigned proof raw = true := by
  rw [passing, (((horder _).filter _).map _).mem_iff]
  constructor
  · intro hindex
    obtain ⟨check, hcheck, rfl⟩ := List.mem_map.mp hindex
    obtain ⟨hpending, hpasses⟩ := List.mem_filter.mp hcheck
    obtain ⟨⟨raw, index⟩, hentry, hget⟩ := List.mem_filterMap.mp hpending
    obtain ⟨cosignature, hcosignature, rfl⟩ := Option.map_eq_some_iff.mp hget
    refine ⟨raw, List.mk_mem_zipIdx_iff_getElem?.mp hentry, ?_⟩
    simp only [cosigned, hcosignature]
    exact hpasses
  · rintro ⟨raw, hraw, hcosigned⟩
    cases hget : proof.treeHead.cosignatures.get? (rules.keyHash (rules.importKey raw)) with
    | none => simp [cosigned, hget] at hcosigned
    | some cosignature =>
        simp only [cosigned, hget] at hcosigned
        refine List.mem_map.mpr ⟨⟨index, rules.keyHash (rules.importKey raw),
          rules.importKey raw, cosignature⟩, ?_, rfl⟩
        refine List.mem_filter.mpr ⟨?_, hcosigned⟩
        refine List.mem_filterMap.mpr ⟨(raw, index), List.mk_mem_zipIdx_iff_getElem?.mpr hraw, ?_⟩
        simp only [hget, Option.map_some]

end AnswerRules

namespace CompiledPolicy

variable (compiled : CompiledPolicy)

theorem nodup_witnesses : compiled.witnesses.Nodup :=
  compiled.nodup_map_keyHash_witnesses.of_map

/-- Marking the positions of the witnesses who cosigned gives what is found. -/
theorem marksAt_eq_found
    {positions : List Nat} {cosigned : PublicKey → Bool}
    (h : ∀ index key, compiled.witnesses[index]? = some key →
      (index ∈ positions ↔ cosigned key = true)) :
    marksAt compiled.witnesses.length positions = compiled.found cosigned := by
  apply List.ext_getElem?
  intro index
  rw [found, List.getElem?_map]
  cases hkey : compiled.witnesses[index]? with
  | none =>
      rw [Option.map_none, List.getElem?_eq_none_iff, marksAt, List.length_map, List.length_range]
      exact List.getElem?_eq_none_iff.mp hkey
  | some key =>
      obtain ⟨hlt, -⟩ := List.getElem?_eq_some_iff.mp hkey
      rw [getElem?_marksAt hlt, Option.map_some]
      simp only [h index key hkey]

theorem satisfiedBy_of_iff
    {passed : List PendingCheck} {cosigned : PublicKey → Bool}
    (h : ∀ index key, compiled.witnesses[index]? = some key →
      (index ∈ passed.map PendingCheck.index ↔ cosigned key = true)) :
    (TrustPolicy.compiled compiled).satisfiedBy passed =
      compiled.evaluate (compiled.found cosigned) := by
  rw [TrustPolicy.satisfiedBy_eq, ← compiled.marksAt_eq_found h]
  rfl

/-- Every list of checks stands for a set of witnesses. -/
theorem exists_satisfiedBy_eq
    (passed : List PendingCheck) :
    ∃ cosigned : PublicKey → Bool,
      (∀ key, cosigned key = true →
        ∃ index ∈ passed.map PendingCheck.index, compiled.witnesses[index]? = some key) ∧
      (TrustPolicy.compiled compiled).satisfiedBy passed =
        compiled.evaluate (compiled.found cosigned) := by
  refine ⟨fun key => (passed.map PendingCheck.index).any
    fun index => compiled.witnesses[index]? = some key, ?_, ?_⟩
  · intro key hkey
    simpa only [List.any_eq_true, decide_eq_true_eq] using hkey
  · apply compiled.satisfiedBy_of_iff
    intro index key hkey
    simp only [List.any_eq_true, decide_eq_true_eq]
    constructor
    · intro hindex
      exact ⟨index, hindex, hkey⟩
    · rintro ⟨other, hother, hotherKey⟩
      obtain ⟨hlt, -⟩ := List.getElem?_eq_some_iff.mp hkey
      have heq : index = other :=
        (List.getElem?_inj hlt compiled.nodup_witnesses).mp (hkey.trans hotherKey.symm)
      exact heq ▸ hother

/-- A set of witnesses is told by their hashes. -/
theorem found_eq_marks (cosigned : PublicKey → Bool) :
    compiled.found cosigned = compiled.marks fun name =>
      ((compiled.witnesses.filter cosigned).map keyHash).contains name := by
  apply List.map_congr_left
  intro key hkey
  have hname : ((compiled.witnesses.filter cosigned).map keyHash).contains (keyHash key) =
      cosigned key := by
    rw [Bool.eq_iff_iff, List.contains_iff_mem, List.mem_map]
    constructor
    · rintro ⟨other, hother, hhash⟩
      obtain ⟨hmem, hcosigned⟩ := List.mem_filter.mp hother
      have heq : other = key :=
        List.inj_on_of_nodup_map compiled.nodup_map_keyHash_witnesses hmem hkey hhash
      exact heq ▸ hcosigned
    · intro hcosigned
      exact ⟨key, List.mem_filter.mpr ⟨hkey, hcosigned⟩, rfl⟩
  simp only [hname]

/-- If the program is that of a compiled policy, more witnesses never undo a quorum. -/
theorem evaluate_found_of_imp
    {compiled : CompiledPolicy} {policy : Policy}
    (hcompile : policy.compile = .ok compiled) {part all : PublicKey → Bool}
    (hsub : ∀ key, part key = true → all key = true)
    (h : compiled.evaluate (compiled.found part) = true) :
    compiled.evaluate (compiled.found all) = true := by
  rw [found_eq_marks, Policy.evaluate_marks hcompile] at h ⊢
  apply Quorum.isSatisfied_of_names_imp _ h
  intro name _ hname
  rw [List.contains_iff_mem] at hname ⊢
  obtain ⟨key, hkey, rfl⟩ := List.mem_map.mp hname
  obtain ⟨hmem, hpart⟩ := List.mem_filter.mp hkey
  exact List.mem_map_of_mem (List.mem_filter.mpr ⟨hmem, hsub key hpart⟩)

end CompiledPolicy

section

variable (compiled : CompiledPolicy) (proof : LoggingProof) (rules : AnswerRules)

/-- When all checks have passed that will, the program is evaluated on all witnesses with a
valid cosignature. -/
theorem satisfiedBy_passing
    {order : List PendingCheck → List PendingCheck}
    (horder : ∀ checks, (order checks).Perm checks) :
    (TrustPolicy.compiled compiled).satisfiedBy (rules.passing order (.compiled compiled) proof) =
      compiled.evaluate (compiled.found (rules.cosigned proof)) := by
  apply compiled.satisfiedBy_of_iff
  intro index key hkey
  rw [AnswerRules.index_mem_passing_iff horder]
  constructor
  · rintro ⟨raw, hraw, hcosigned⟩
    cases hkey.symm.trans hraw
    exact hcosigned
  · intro hcosigned
    exact ⟨key, hkey, hcosigned⟩

/-- If all valid cosignatures satisfy the program, or no part of them does, so do the checks
that complete first. -/
theorem any_inits_passing
    {order : List PendingCheck → List PendingCheck}
    (horder : ∀ checks, (order checks).Perm checks)
    (h : compiled.evaluate (compiled.found (rules.cosigned proof)) = true ∨
      ∀ part : PublicKey → Bool, (∀ key, part key = true → rules.cosigned proof key = true) →
        compiled.evaluate (compiled.found part) = false) :
    (rules.passing order (.compiled compiled) proof).inits.any
        (TrustPolicy.compiled compiled).satisfiedBy =
      compiled.evaluate (compiled.found (rules.cosigned proof)) := by
  rcases h with hall | hnone
  · rw [hall, List.any_eq_true]
    refine ⟨_, (List.mem_inits _ _).mpr List.prefix_rfl, ?_⟩
    rw [satisfiedBy_passing compiled proof rules horder, hall]
  · rw [hnone _ fun key hkey => hkey, List.any_eq_false]
    intro front hfront
    obtain ⟨part, hpart, heq⟩ := compiled.exists_satisfiedBy_eq front
    rw [heq, hnone part, Bool.not_eq_true]
    intro key hkey
    obtain ⟨index, hindex, hget⟩ := hpart key hkey
    have hpassing := List.map_subset _ ((List.mem_inits _ _).mp hfront).subset hindex
    obtain ⟨raw, hraw, hcosigned⟩ := (AnswerRules.index_mem_passing_iff horder).mp hpassing
    cases hget.symm.trans hraw
    exact hcosigned

/-- If a part of the valid cosignatures satisfies the program, the gate is passed when their
checks complete first. -/
theorem exists_order_any_inits_passing
    {part : PublicKey → Bool}
    (hpart : ∀ key, part key = true → rules.cosigned proof key = true)
    (h : compiled.evaluate (compiled.found part) = true) :
    ∃ order : List PendingCheck → List PendingCheck, (∀ checks, (order checks).Perm checks) ∧
      (rules.passing order (.compiled compiled) proof).inits.any
        (TrustPolicy.compiled compiled).satisfiedBy = true := by
  let early : PendingCheck → Bool := fun check =>
    (compiled.witnesses[check.index]?).any part
  let order : List PendingCheck → List PendingCheck := fun checks =>
    checks.filter early ++ checks.filter fun check => !early check
  have horder : ∀ checks, (order checks).Perm checks := List.filter_append_perm early
  refine ⟨order, horder, List.any_eq_true.mpr ⟨(rules.passing id (.compiled compiled) proof).filter
    early, (List.mem_inits _ _).mpr ?_, ?_⟩⟩
  · simp only [AnswerRules.passing, order, id, List.filter_append, List.filter_comm]
    exact List.prefix_append _ _
  · rw [← h]
    apply compiled.satisfiedBy_of_iff
    intro index key hkey
    constructor
    · intro hindex
      obtain ⟨check, hcheck, rfl⟩ := List.mem_map.mp hindex
      have hearly := (List.mem_filter.mp hcheck).2
      simpa only [early, hkey, Option.any_some] using hearly
    · intro hkeyPart
      have hpassing : index ∈ (rules.passing id (.compiled compiled) proof).map
          PendingCheck.index :=
        (AnswerRules.index_mem_passing_iff fun _ => List.Perm.refl _).mpr
          ⟨key, hkey, hpart key hkeyPart⟩
      obtain ⟨check, hcheck, rfl⟩ := List.mem_map.mp hpassing
      refine List.mem_map.mpr ⟨check, List.mem_filter.mpr ⟨hcheck, ?_⟩, rfl⟩
      simp only [early, hkey, Option.any_some, hkeyPart]

end

/-- The quorum gate comes to one verdict in every order in which the checks complete. -/
def AnswerRules.GateDecides (rules : AnswerRules) (policy : TrustPolicy) (proof : LoggingProof)
    (verdict : Bool) : Prop :=
  ∀ order : List PendingCheck → List PendingCheck, (∀ checks, (order checks).Perm checks) →
    ((Verifier.mk (.ofRules rules) order).checkQuorum policy proof).Yields (.ok verdict)

namespace Verifier

/-- The quorum gate decides as one evaluation on all witnesses with a valid cosignature,
whatever the order in which the checks complete, exactly if all of these witnesses satisfy the
program or no part of them does.  It always does so if the program is that of a quorum rule. -/
theorem checkQuorum_eq_evaluate_iff
    (compiled : CompiledPolicy) (proof : LoggingProof) (rules : AnswerRules) :
    let verdict := compiled.evaluate (compiled.found (rules.cosigned proof))
    (rules.GateDecides (.compiled compiled) proof verdict ↔
      verdict = true ∨
        ∀ part : PublicKey → Bool, (∀ key, part key = true → rules.cosigned proof key = true) →
          compiled.evaluate (compiled.found part) = false) ∧
      ∀ policy : Policy, policy.compile = .ok compiled →
        rules.GateDecides (.compiled compiled) proof verdict := by
  intro verdict
  have hgate : ∀ order, ((Verifier.mk (.ofRules rules) order).checkQuorum (.compiled compiled)
      proof).Yields (.ok ((rules.passing order (.compiled compiled) proof).inits.any
        (TrustPolicy.compiled compiled).satisfiedBy)) := by
    intro order
    have hprovider : (Verifier.mk (.ofRules rules) order).provider = .ofRules rules := rfl
    exact yields_checkQuorum hprovider _ _
  have hdecides : (verdict = true ∨
      ∀ part : PublicKey → Bool, (∀ key, part key = true → rules.cosigned proof key = true) →
        compiled.evaluate (compiled.found part) = false) →
      rules.GateDecides (.compiled compiled) proof verdict := by
    intro h order horder
    have hverdict := hgate order
    rwa [any_inits_passing compiled proof rules horder h] at hverdict
  refine ⟨⟨?_, hdecides⟩, ?_⟩
  · intro h
    by_contra hneither
    rw [not_or, not_forall] at hneither
    obtain ⟨hfull, part, hpart⟩ := hneither
    rw [Classical.not_imp, Bool.not_eq_false] at hpart
    obtain ⟨order, horder, hany⟩ :=
      exists_order_any_inits_passing compiled proof rules hpart.1 hpart.2
    have hyes := hgate order
    rw [hany] at hyes
    exact hfull (Except.ok.inj ((h order horder []).symm.trans (hyes [])))
  · intro policy hcompile
    apply hdecides
    by_cases hfull : verdict = true
    · exact Or.inl hfull
    · refine Or.inr fun part hpart => Bool.eq_false_iff.mpr fun h => hfull ?_
      exact CompiledPolicy.evaluate_found_of_imp hcompile hpart h

end Verifier

/-- A policy of two witnesses whose program counts the second one twice and holds for a sum of
one. -/
def CompiledPolicy.sampleUneven : CompiledPolicy where
  logs := [.replicate 7]
  witnesses := [.replicate 3, .replicate 1]
  program := [0x40, 0x41, 0x41, 0x01, 0x01]
  logs_ascending := by decide +kernel
  witnesses_ascending := by decide +kernel
  length_logs := by decide
  length_witnesses := by decide
  length_program := by decide

namespace Verifier

/-- The first witness alone suffices and both do not, so the gate is passed only if the first
one is checked first. -/
theorem checkQuorum_sampleUneven_depends_on_order :
    let compiled := CompiledPolicy.sampleUneven
    let rules := AnswerRules.ofRule fun _ _ _ => true
    CompiledPolicy.ofBytes compiled.toBytes = .ok compiled ∧
      compiled.evaluate (compiled.found (rules.cosigned .sample)) = false ∧
      ((Verifier.mk (.ofRules rules) id).checkQuorum (.compiled compiled) .sample).outcome.1 =
        .ok true ∧
      ((Verifier.mk (.ofRules rules) List.reverse).checkQuorum (.compiled compiled)
          .sample).outcome.1 =
        .ok false :=
  ⟨CompiledPolicy.ofBytes_toBytes _, by decide +kernel, by decide +kernel, by decide +kernel⟩

end Verifier

end WitnessedLog
