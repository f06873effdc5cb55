import Mathlib.Data.List.Infix
import WitnessedLog.Proofs.Verification.Providers

/-!
# The quorum gate

The checks of cosignatures complete one after another, and the quorum is tested after each that
passes.  So the gate is passed exactly if some initial segment of the checks that pass, in the
order in which they complete, satisfies the policy.  This holds for policies of both forms, also
if more witnesses can undo a quorum.
-/

namespace WitnessedLog

/-! ## Positions -/

/-- Ones at the given positions, and zeros elsewhere. -/
def marksAt (count : Nat) (positions : List Nat) : Bytes :=
  (List.range count).map fun position => if position ∈ positions then 1 else 0

theorem marksAt_nil (count : Nat) : marksAt count [] = List.replicate count 0 := by
  simp [marksAt, List.map_const']

theorem getElem?_marksAt
    {count position : Nat}
    (h : position < count) (positions : List Nat) :
    (marksAt count positions)[position]? = some (if position ∈ positions then 1 else 0) := by
  rw [marksAt, List.getElem?_map, List.getElem?_range h, Option.map_some]

theorem marksAt_concat
    (count : Nat) (positions : List Nat) (position : Nat) :
    marksAt count (positions ++ [position]) = (marksAt count positions).set position 1 := by
  apply List.ext_getElem
  · simp [marksAt]
  · intro other hother _
    rw [List.getElem_set]
    by_cases h : position = other
    · simp [marksAt, h]
    · simp [marksAt, h, Ne.symm h]

/-! ## What is checked -/

section

variable (valid : PublicKey → Signature → Bytes → Bool) (head : TreeHead) (log : KeyHash)

/-- Whether a rule accepts the cosignature of a check over a tree head of a log. -/
def PendingCheck.passes (check : PendingCheck) : Bool :=
  valid check.key check.cosignature.signature
    (Statement.bytes (Statement.cosigned head log check.cosignature.timestamp))

end

/-- The checks for those of the numbered keys that have a cosignature. -/
def AnswerRules.pendingChecks (rules : AnswerRules) (cosignatures : KeyTable Cosignature)
    (keys : List (PublicKey × Nat)) : List PendingCheck :=
  keys.filterMap fun entry =>
    let key := rules.importKey entry.1
    (cosignatures.get? (rules.keyHash key)).map fun cosignature =>
      ⟨entry.2, rules.keyHash key, key, cosignature⟩

theorem AnswerRules.pendingChecks_cons
    (rules : AnswerRules) (cosignatures : KeyTable Cosignature)
    (raw : PublicKey) (index : Nat) (keys : List (PublicKey × Nat)) :
    rules.pendingChecks cosignatures ((raw, index) :: keys) =
      match cosignatures.get? (rules.keyHash (rules.importKey raw)) with
        | some cosignature =>
          ⟨index, rules.keyHash (rules.importKey raw), rules.importKey raw, cosignature⟩ ::
            rules.pendingChecks cosignatures keys
        | none => rules.pendingChecks cosignatures keys := by
  cases hget : cosignatures.get? (rules.keyHash (rules.importKey raw)) with
  | none => simp [pendingChecks, hget]
  | some cosignature => simp [pendingChecks, hget]

/-- The checks of a proof that pass, in the order in which they complete. -/
def AnswerRules.passing (rules : AnswerRules) (order : List PendingCheck → List PendingCheck)
    (policy : TrustPolicy) (proof : LoggingProof) : List PendingCheck :=
  (order (rules.pendingChecks proof.treeHead.cosignatures policy.witnessKeys.zipIdx)).filter
    (PendingCheck.passes rules.valid proof.treeHead.signed.treeHead proof.log)

/-! ## What has been found -/

/-- What has been found of a number of witnesses once the given checks have passed. -/
def Tally.ofPassed (count : Nat) (passed : List PendingCheck) : Tally :=
  passed.foldl Tally.add (Tally.nobody count)

theorem Tally.ofPassed_concat (count : Nat) (passed : List PendingCheck) (check : PendingCheck) :
    ofPassed count (passed ++ [check]) = (ofPassed count passed).add check := by
  rw [ofPassed, List.foldl_append]
  rfl

theorem Tally.ofPassed_eq (count : Nat) (passed : List PendingCheck) :
    ofPassed count passed =
      ⟨(passed.map PendingCheck.witness).reverse,
        marksAt count (passed.map PendingCheck.index)⟩ := by
  induction passed using List.reverseRecOn with
  | nil =>
      rw [List.map_nil, List.map_nil, marksAt_nil]
      rfl
  | append_singleton passed check ih =>
      rw [ofPassed_concat, ih, add, List.map_append, List.map_append, List.map_singleton,
        List.map_singleton, marksAt_concat, List.reverse_concat]

/-- Whether a policy is satisfied once the given checks have passed. -/
def TrustPolicy.satisfiedBy (policy : TrustPolicy) (passed : List PendingCheck) : Bool :=
  let tally := Tally.ofPassed policy.witnessKeys.length passed
  policy.isSatisfied tally.present tally.found

theorem TrustPolicy.satisfiedBy_eq (policy : TrustPolicy) (passed : List PendingCheck) :
    policy.satisfiedBy passed =
      policy.isSatisfied (passed.map PendingCheck.witness).reverse
        (marksAt policy.witnessKeys.length (passed.map PendingCheck.index)) := by
  rw [satisfiedBy, Tally.ofPassed_eq]

theorem TrustPolicy.isSatisfied_add
    (policy : TrustPolicy) (passed : List PendingCheck) (check : PendingCheck) :
    policy.isSatisfied ((Tally.ofPassed policy.witnessKeys.length passed).add check).present
        ((Tally.ofPassed policy.witnessKeys.length passed).add check).found =
      policy.satisfiedBy (passed ++ [check]) := by
  rw [satisfiedBy, Tally.ofPassed_concat]

/-! ## Initial segments -/

theorem any_inits_of_nil
    {α : Type} {p : List α → Bool}
    (h : p [] = true) (xs : List α) : xs.inits.any p = true :=
  List.any_eq_true.mpr ⟨[], (List.mem_inits _ _).mpr List.nil_prefix, h⟩

theorem any_inits_append_cons
    {α : Type} (p : List α → Bool) (done : List α) (x : α) (xs : List α) :
    ((x :: xs).inits.any fun front => p (done ++ front)) =
      (p done || xs.inits.any fun front => p ((done ++ [x]) ++ front)) := by
  have hfront : (fun front => p (done ++ front)) ∘ List.cons x =
      fun front => p ((done ++ [x]) ++ front) := by
    funext front
    rw [Function.comp_apply, List.append_cons]
  rw [List.inits_cons, List.any_cons, List.append_nil, List.any_map, hfront]

namespace Verifier

variable {verifier : Verifier} {rules : AnswerRules}

theorem yields_gatherChecks_of_rules
    (h : verifier.provider = .ofRules rules)
    (cosignatures : KeyTable Cosignature) (keys : List (PublicKey × Nat)) :
    (verifier.gatherChecks cosignatures keys).Yields
      (.ok (rules.pendingChecks cosignatures keys)) := by
  induction keys with
  | nil => exact Session.yields_pure []
  | cons entry keys ih =>
      obtain ⟨raw, index⟩ := entry
      refine (yields_importKey_of_rules h raw).bind ((yields_hashKey_of_rules h _).bind
        (ih.bind ?_))
      rw [AnswerRules.pendingChecks_cons]
      cases cosignatures.get? (rules.keyHash (rules.importKey raw)) with
      | none => exact Session.yields_pure _
      | some cosignature => exact Session.yields_pure _

/-- If the checks so far do not suffice, completing the others decides whether some initial
segment of those that pass does. -/
theorem yields_completeChecks
    (h : verifier.provider = .ofRules rules) (policy : TrustPolicy) (head : TreeHead)
    (log : KeyHash) {passed : List PendingCheck}
    (hpassed : policy.satisfiedBy passed = false) (checks : List PendingCheck) :
    ∃ tally, (verifier.completeChecks policy head log
        (Tally.ofPassed policy.witnessKeys.length passed) checks).Yields
      (.ok ((checks.filter (PendingCheck.passes rules.valid head log)).inits.any
        fun front => policy.satisfiedBy (passed ++ front), tally)) := by
  induction checks generalizing passed with
  | nil =>
      simp only [List.filter_nil, List.inits, List.any_cons, List.any_nil, List.append_nil, hpassed]
      exact ⟨_, Session.yields_pure _⟩
  | cons check checks ih =>
      have hverify := yields_verify_of_rules h check.key check.cosignature.signature
        (Statement.bytes (Statement.cosigned head log check.cosignature.timestamp))
      have hpasses : rules.valid check.key check.cosignature.signature
          (Statement.bytes (Statement.cosigned head log check.cosignature.timestamp)) =
            check.passes rules.valid head log := rfl
      rw [hpasses] at hverify
      cases hcheck : check.passes rules.valid head log with
      | false =>
          obtain ⟨tally, hrest⟩ := ih hpassed
          rw [hcheck] at hverify
          rw [List.filter_cons_of_neg (by simp [hcheck])]
          exact ⟨tally, hverify.bind hrest⟩
      | true =>
          rw [hcheck] at hverify
          simp only [List.filter_cons_of_pos hcheck, any_inits_append_cons, hpassed, Bool.false_or]
          cases hnext : policy.satisfiedBy (passed ++ [check]) with
          | false =>
              obtain ⟨tally, hrest⟩ := ih hnext
              refine ⟨tally, hverify.bind ?_⟩
              rw [Tally.ofPassed_concat] at hrest
              simp only [if_true, policy.isSatisfied_add, hnext, Bool.false_eq_true, if_false]
              exact hrest
          | true =>
              rw [any_inits_of_nil (by rw [List.append_nil, hnext])]
              refine ⟨(Tally.ofPassed policy.witnessKeys.length passed).add check,
                hverify.bind ?_⟩
              simp only [if_true, policy.isSatisfied_add, hnext]
              exact Session.yields_pure _

/-- The quorum gate, by whether the policy is satisfied when nothing has been checked. -/
theorem checkQuorum_eq (verifier : Verifier) (policy : TrustPolicy) (proof : LoggingProof) :
    verifier.checkQuorum policy proof =
      if policy.satisfiedBy [] then pure true
      else (do
        let checks ← verifier.gatherChecks proof.treeHead.cosignatures policy.witnessKeys.zipIdx
        let completed ← verifier.completeChecks policy proof.treeHead.signed.treeHead proof.log
          (Tally.ofPassed policy.witnessKeys.length []) (verifier.order checks)
        pure completed.1) := by
  rfl

/-- The quorum gate is passed if some initial segment of the checks that pass, in the order of
their completion, satisfies the policy. -/
theorem yields_checkQuorum
    (h : verifier.provider = .ofRules rules) (policy : TrustPolicy) (proof : LoggingProof) :
    (verifier.checkQuorum policy proof).Yields
      (.ok ((rules.passing verifier.order policy proof).inits.any policy.satisfiedBy)) := by
  rw [checkQuorum_eq]
  cases hnone : policy.satisfiedBy [] with
  | true =>
      rw [any_inits_of_nil hnone]
      exact Session.yields_pure true
  | false =>
      obtain ⟨tally, hcomplete⟩ := yields_completeChecks h policy proof.treeHead.signed.treeHead
        proof.log hnone (verifier.order (rules.pendingChecks proof.treeHead.cosignatures
          policy.witnessKeys.zipIdx))
      refine (yields_gatherChecks_of_rules h _ _).bind ?_
      exact hcomplete.bind (Session.yields_pure _)

end Verifier

end WitnessedLog
