import WitnessedLog.Proofs.Verification.Decision

/-!
# Failures of capabilities

A capability that fails ends the verification.  No call is made after the failure, the failure is
reported as it is, and none is reported that did not happen.  This is a property of single calls
that binding keeps, so it holds of every session in which a provider's answers are taken as they
come.
-/

namespace WitnessedLog

/-- The failure in an answer, if it is one. -/
def failureOf {α : Type} : Except CryptoError α → Option CryptoError
  | .ok _ => none
  | .error e => some e

namespace Provider

variable (provider : Provider)

/-- The failure with which a provider answers a call after others, if it fails. -/
def failure? (calls : List Call) : Call → Option CryptoError
  | .importKey key => failureOf (provider.importKey calls key)
  | .digest data => failureOf (provider.digest calls data)
  | .verify key signature message => failureOf (provider.verify calls key signature message)

/-- Calls that all succeed when they are made one by one after others. -/
def Serves : (calls made : List Call) → Prop
  | _, [] => True
  | calls, call :: made => provider.failure? calls call = none ∧ Serves (calls ++ [call]) made

theorem serves_append (calls made others : List Call) :
    provider.Serves calls (made ++ others) ↔
      provider.Serves calls made ∧ provider.Serves (calls ++ made) others := by
  induction made generalizing calls with
  | nil => simp [Serves]
  | cons call made ih =>
      rw [List.cons_append, Serves, Serves, ih, List.append_assoc, List.singleton_append, and_assoc]

variable {provider}

theorem Serves.failure?_eq_none
    {calls front back : List Call} {call : Call}
    (h : provider.Serves calls (front ++ call :: back)) :
    provider.failure? (calls ++ front) call = none :=
  ((provider.serves_append calls front _).mp h).2.1

variable (provider)

/-- At most the last call failed, and a failure is reported exactly if it is that of the last
call. -/
def EndsAtFailure {α : Type} (outcome : Except VerifyError α × List Call) : Prop :=
  (∀ front call back, outcome.2 = front ++ call :: back → back ≠ [] →
      provider.failure? front call = none) ∧
    ∀ e, outcome.1 = .error (.crypto e) ↔
      ∃ front last, outcome.2 = front ++ [last] ∧ provider.failure? front last = some e

/-- How a run ends that heeds failures: either all of its calls succeed and it reports no failure,
or its last call fails and it reports that failure. -/
inductive Ends {α : Type} (calls : List Call) : Except VerifyError α → List Call → Prop where
  | served {result : Except VerifyError α} {made : List Call}
    (hresult : ∀ e, result ≠ .error (.crypto e)) (hmade : provider.Serves calls made) :
      Ends calls result (calls ++ made)
  | failed {e : CryptoError} {front : List Call} {last : Call}
    (hfront : provider.Serves calls front) (hlast : provider.failure? (calls ++ front) last = some e) :
      Ends calls (.error (.crypto e)) (calls ++ (front ++ [last]))

variable {provider}

theorem Ends.endsAtFailure
    {α : Type} {result : Except VerifyError α} {calls : List Call}
    (h : provider.Ends [] result calls) : provider.EndsAtFailure (result, calls) := by
  cases h with
  | served hresult hmade =>
      rename_i made
      have hnone : ∀ front call back, made = front ++ call :: back →
          provider.failure? front call = none := by
        rintro front call back rfl
        exact hmade.failure?_eq_none
      refine ⟨fun front call back hcalls _ => hnone front call back hcalls, fun e => ?_⟩
      constructor
      · intro herror
        exact absurd herror (hresult e)
      · rintro ⟨front, last, hcalls, hfailure⟩
        rw [hnone front last [] hcalls] at hfailure
        cases hfailure
  | failed hfront hlast =>
      rename_i e front last
      refine ⟨?_, fun cause => ?_⟩
      · intro earlier call back hcalls hback
        obtain rfl | ⟨between, final, rfl⟩ := List.eq_nil_or_concat' back
        · exact absurd rfl hback
        · rw [List.nil_append, ← List.cons_append, ← List.append_assoc] at hcalls
          obtain ⟨rfl, -⟩ := List.append_inj' hcalls rfl
          exact hfront.failure?_eq_none
      · constructor
        · intro herror
          cases herror
          exact ⟨front, last, rfl, hlast⟩
        · rintro ⟨front', last', hcalls, hfailure⟩
          rw [List.nil_append] at hcalls
          obtain ⟨rfl, hcall⟩ := List.append_inj' hcalls rfl
          cases hcall
          cases hlast.symm.trans hfailure
          rfl

/-- What follows successful calls ends as it would on its own. -/
theorem Ends.after
    {α : Type} {calls made later : List Call} {result : Except VerifyError α}
    (hmade : provider.Serves calls made) (h : provider.Ends (calls ++ made) result later) :
    provider.Ends calls result later := by
  cases h with
  | served hresult hothers =>
      rw [List.append_assoc]
      exact .served hresult ((provider.serves_append calls made _).mpr ⟨hmade, hothers⟩)
  | failed hfront hlast =>
      rw [List.append_assoc] at hlast ⊢
      rw [← List.append_assoc made]
      exact .failed ((provider.serves_append calls made _).mpr ⟨hmade, hfront⟩) hlast

end Provider

namespace Session

variable {α β : Type} {provider : Provider}

/-- A session that ends at the first failure of a call and reports no other. -/
def Heeds (provider : Provider) (session : Session α) : Prop :=
  ∀ calls, provider.Ends calls (session.runAfter calls).1 (session.runAfter calls).2

theorem heeds_of_no_call
    {session : Session α} {result : Except VerifyError α}
    (hrun : ∀ calls, session.runAfter calls = (result, calls))
    (hresult : ∀ e, result ≠ .error (.crypto e)) : session.Heeds provider := by
  intro calls
  rw [hrun]
  have hends : provider.Ends calls result (calls ++ []) := .served hresult trivial
  rwa [List.append_nil] at hends

theorem heeds_pure (a : α) : (pure a : Session α).Heeds provider :=
  heeds_of_no_call (fun _ => rfl) fun _ h => by cases h

theorem heeds_throw
    {cause : VerifyError}
    (h : ∀ e, cause ≠ .crypto e) : (throw cause : Session α).Heeds provider :=
  heeds_of_no_call (fun _ => rfl) fun e herror => h e (Except.error.inj herror)

theorem heeds_call
    {request : Call} {answer : List Call → Except CryptoError α}
    (h : ∀ calls, provider.failure? calls request = failureOf (answer calls)) :
    (call request answer).Heeds provider := by
  intro calls
  rw [runAfter_call]
  have hfailure := h calls
  cases hanswer : answer calls with
  | ok a =>
      rw [hanswer] at hfailure
      exact .served (fun _ herror => by cases herror) ⟨hfailure, trivial⟩
  | error e =>
      rw [hanswer] at hfailure
      have hlast : provider.failure? (calls ++ []) request = some e := by rwa [List.append_nil]
      have hnone : provider.Serves calls [] := trivial
      exact .failed hnone hlast

theorem Heeds.bind
    {session : Session α} {next : α → Session β}
    (h : session.Heeds provider) (hnext : ∀ a, (next a).Heeds provider) :
    (session >>= next).Heeds provider := by
  intro calls
  rw [runAfter_bind]
  have hends := h calls
  rcases hrun : session.runAfter calls with ⟨result, later⟩
  rw [hrun] at hends
  cases hends with
  | failed hfront hlast => exact .failed hfront hlast
  | served hresult hmade =>
      cases result with
      | ok a => exact (hnext a _).after hmade
      | error e => exact .served (fun cause herror => hresult cause (by cases herror; rfl)) hmade

theorem Heeds.gate
    {refused : Prop} [Decidable refused] {cause : VerifyError} {next : Unit → Session β}
    (h : (next ()).Heeds provider) (hcause : ∀ e, cause ≠ .crypto e) :
    (if refused then throw cause >>= next else next ()).Heeds provider := by
  by_cases hrefused : refused
  · rw [if_pos hrefused]
    exact heeds_of_no_call (fun _ => rfl) fun e herror => hcause e (Except.error.inj herror)
  · rwa [if_neg hrefused]

/-- Calls are only ever added. -/
theorem Heeds.extends_calls
    {session : Session α}
    (h : session.Heeds provider) {calls later : List Call} {result : Except VerifyError α}
    (hrun : session.runAfter calls = (result, later)) : calls <+: later := by
  have hends := h calls
  rw [hrun] at hends
  cases hends with
  | served _ _ => exact List.prefix_append _ _
  | failed _ _ => exact List.prefix_append _ _

end Session

namespace Verifier

variable (verifier : Verifier) (policy : TrustPolicy)

theorem heeds_importKey (key : PublicKey) :
    (verifier.importKey key).Heeds verifier.provider :=
  Session.heeds_call fun _ => rfl

theorem heeds_digest (data : Bytes) :
    (verifier.digest data).Heeds verifier.provider :=
  Session.heeds_call fun _ => rfl

theorem heeds_verify (key : PublicKey) (signature : Signature) (message : Bytes) :
    (verifier.verify key signature message).Heeds verifier.provider :=
  Session.heeds_call fun _ => rfl

theorem heeds_hashKey (key : PublicKey) :
    (verifier.hashKey key).Heeds verifier.provider :=
  (verifier.heeds_digest key.bytes).bind fun _ => Session.heeds_pure _

theorem heeds_gatherChecks
    (cosignatures : KeyTable Cosignature) (keys : List (PublicKey × Nat)) :
    (verifier.gatherChecks cosignatures keys).Heeds verifier.provider := by
  induction keys with
  | nil => exact Session.heeds_pure []
  | cons entry keys ih =>
      refine (verifier.heeds_importKey entry.1).bind fun key => (verifier.heeds_hashKey key).bind
        fun witness => ih.bind fun checks => ?_
      cases cosignatures.get? witness with
      | none => exact Session.heeds_pure _
      | some cosignature => exact Session.heeds_pure _

/-- An invalid cosignature is passed over, and a failure is not. -/
theorem heeds_completeChecks
    (head : TreeHead) (log : KeyHash) (tally : Tally) (checks : List PendingCheck) :
    (verifier.completeChecks policy head log tally checks).Heeds verifier.provider := by
  induction checks generalizing tally with
  | nil => exact Session.heeds_pure _
  | cons check checks ih =>
      refine (verifier.heeds_verify _ _ _).bind fun valid => ?_
      cases valid with
      | false => exact ih tally
      | true =>
          simp only [if_true]
          split
          · exact Session.heeds_pure _
          · exact ih _

theorem heeds_checkQuorum (proof : LoggingProof) :
    (verifier.checkQuorum policy proof).Heeds verifier.provider := by
  simp only [checkQuorum]
  split
  · exact Session.heeds_pure true
  · exact (verifier.heeds_gatherChecks _ _).bind fun _ =>
      (verifier.heeds_completeChecks policy _ _ _ _).bind fun _ => Session.heeds_pure _

theorem heeds_inclusion
    (provider : Provider) (result : Except Merkle.InclusionError Unit) :
    (match result with
      | .ok () => pure ()
      | .error cause => throw (.inclusion cause) : Session Unit).Heeds provider := by
  cases result with
  | ok _ => exact Session.heeds_pure ()
  | error cause => exact Session.heeds_throw fun _ h => by cases h

theorem heeds_verifyHash
    (messageHash : Hash) (submitter : PublicKey) (proof : LoggingProof) :
    (verifier.verifyHash messageHash submitter policy proof).Heeds verifier.provider := by
  refine (verifier.heeds_importKey submitter).bind fun key => (verifier.heeds_hashKey key).bind
    fun name => (verifier.heeds_digest _).bind fun checksum =>
      Session.Heeds.gate ?_ fun _ h => by cases h
  refine (verifier.heeds_verify _ _ _).bind fun leafValid =>
    Session.Heeds.gate ?_ fun _ h => by cases h
  cases policy.log? proof.log with
  | none => exact Session.heeds_throw fun _ h => by cases h
  | some raw =>
      refine (verifier.heeds_importKey raw).bind fun logKey => (verifier.heeds_verify _ _ _).bind
        fun headValid => Session.Heeds.gate ?_ fun _ h => by cases h
      refine (verifier.heeds_checkQuorum policy proof).bind fun quorum =>
        Session.Heeds.gate ?_ fun _ h => by cases h
      exact (verifier.heeds_digest _).bind fun _ => heeds_inclusion _ _

theorem heeds_verifyMessage
    (message : Bytes) (submitter : PublicKey) (proof : LoggingProof) :
    (verifier.verifyMessage message submitter policy proof).Heeds verifier.provider :=
  (verifier.heeds_digest message).bind fun _ => verifier.heeds_verifyHash policy _ _ _

/-- Among the calls that a verification makes at most the last one fails, and the result is a
failure of a capability exactly if it is the failure of the last call. -/
theorem verification_ends_at_failure
    (verifier : Verifier) (policy : TrustPolicy) (proof : LoggingProof) (submitter : PublicKey) :
    (∀ messageHash, verifier.provider.EndsAtFailure
        (verifier.verifyHash messageHash submitter policy proof).outcome) ∧
      ∀ message, verifier.provider.EndsAtFailure
        (verifier.verifyMessage message submitter policy proof).outcome :=
  ⟨fun messageHash => (verifier.heeds_verifyHash policy messageHash submitter proof []).endsAtFailure,
    fun message => (verifier.heeds_verifyMessage policy message submitter proof []).endsAtFailure⟩

/-- The check of the second cosignature fails, and so it is the last call. -/
theorem verifyHash_sample_ends_at_failure :
    let provider := (Provider.ofRule fun _ _ _ => true).prescribed {
      imports := []
      digests := []
      verdicts := [none, none, some (.verdict false), some (.failure (.verify "out of order"))] }
    let outcome := ((ascending provider).verifyHash (.replicate 0) (.replicate 9) (.tree .sample)
      .sample).outcome
    provider.EndsAtFailure outcome ∧ outcome.1 = .error (.crypto (.verify "out of order")) ∧
      ∃ front last, outcome.2 = front ++ [last] ∧
        provider.failure? front last = some (.verify "out of order") := by
  intro provider outcome
  have hends : provider.EndsAtFailure outcome :=
    (verification_ends_at_failure (ascending provider) (.tree .sample) .sample
      (.replicate 9)).1 (.replicate 0)
  have hfailed : outcome.1 = .error (.crypto (.verify "out of order")) := by decide +kernel
  exact ⟨hends, hfailed, (hends.2 _).mp hfailed⟩

end Verifier

end WitnessedLog
