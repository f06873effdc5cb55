import WitnessedLog.Proofs.Verification.CompletionOrder

/-!
# The run of the quorum gate

If somebody has to cosign, the quorum gate imports and hashes the key of every witness and then
checks the cosignatures one by one, in the order of the witnesses.  It keeps what it found in two
accounts, by key hash and by position, and tests the quorum after each check that passes.  The two
accounts always tell the same set, so the gate stops exactly at the first check with which those
that passed are a quorum, also for a program that more witnesses can undo.
-/

namespace WitnessedLog

/-! ## Providers that never fail -/

namespace Provider

variable (provider : Provider)

/-- No call fails, whatever was called before. -/
def NeverFails : Prop :=
  ∀ calls call, provider.failure? calls call = none

/-- Whether a signature is found valid after the given calls. -/
def finds (calls : List Call) (key : PublicKey) (signature : Signature) (message : Bytes) : Bool :=
  provider.verify calls key signature message = .ok true

variable {provider}

theorem exists_ok_of_failureOf_eq_none
    {α : Type} {answer : Except CryptoError α}
    (h : failureOf answer = none) : ∃ a, answer = .ok a := by
  cases answer with
  | ok a => exact ⟨a, rfl⟩
  | error e => cases h

theorem NeverFails.importKey
    (h : provider.NeverFails) (hprovider : provider.Faithful) (calls : List Call)
    (key : PublicKey) : provider.importKey calls key = .ok key := by
  obtain ⟨imported, himported⟩ := exists_ok_of_failureOf_eq_none (h calls (.importKey key))
  rw [himported, hprovider.importKey calls key imported himported]

theorem NeverFails.digest
    (h : provider.NeverFails) (hprovider : provider.Faithful) (calls : List Call)
    (data : Bytes) : provider.digest calls data = .ok (sha256 data) := by
  obtain ⟨hash, hhash⟩ := exists_ok_of_failureOf_eq_none (h calls (.digest data))
  rw [hhash, hprovider.digest calls data hash hhash]

theorem NeverFails.verify
    (h : provider.NeverFails) (calls : List Call) (key : PublicKey) (signature : Signature)
    (message : Bytes) :
    provider.verify calls key signature message =
      .ok (provider.finds calls key signature message) := by
  obtain ⟨valid, hvalid⟩ :=
    exists_ok_of_failureOf_eq_none (h calls (.verify key signature message))
  cases valid <;> simp [finds, hvalid]

theorem neverFails_ofRule (valid : PublicKey → Signature → Bytes → Bool) :
    (ofRule valid).NeverFails := by
  intro calls call
  cases call <;> rfl

end Provider

namespace Verifier

variable {verifier : Verifier}

theorem runAfter_importKey
    (hserves : verifier.provider.NeverFails) (hprovider : verifier.provider.Faithful)
    (key : PublicKey) (calls : List Call) :
    (verifier.importKey key).runAfter calls = (.ok key, calls ++ [.importKey key]) :=
  Session.runAfter_call_eq_ok_iff.mpr ⟨hserves.importKey hprovider calls key, rfl⟩

theorem runAfter_hashKey
    (hserves : verifier.provider.NeverFails) (hprovider : verifier.provider.Faithful)
    (key : PublicKey) (calls : List Call) :
    (verifier.hashKey key).runAfter calls = (.ok (keyHash key), calls ++ [.digest key.bytes]) := by
  have hdigest : (verifier.digest key.bytes).runAfter calls =
      (.ok (sha256 key.bytes), calls ++ [.digest key.bytes]) :=
    Session.runAfter_call_eq_ok_iff.mpr ⟨hserves.digest hprovider calls key.bytes, rfl⟩
  rw [hashKey, Session.runAfter_bind, hdigest]
  rfl

theorem runAfter_verify
    (hserves : verifier.provider.NeverFails) (key : PublicKey) (signature : Signature)
    (message : Bytes) (calls : List Call) :
    (verifier.verify key signature message).runAfter calls =
      (.ok (verifier.provider.finds calls key signature message),
        calls ++ [.verify key signature message]) :=
  Session.runAfter_call_eq_ok_iff.mpr ⟨hserves.verify calls key signature message, rfl⟩

end Verifier

/-! ## The witnesses with a cosignature -/

/-- A check is for the key at its position, under the hash of that key. -/
def PendingCheck.BelongsTo (check : PendingCheck) (keys : List PublicKey) : Prop :=
  keys[check.index]? = some check.key ∧ check.witness = keyHash check.key

section

variable (cosignatures : KeyTable Cosignature)

theorem pendingChecks_cons (raw : PublicKey) (index : Nat) (keys : List (PublicKey × Nat)) :
    pendingChecks cosignatures ((raw, index) :: keys) =
      match cosignatures.get? (keyHash raw) with
        | some cosignature =>
          ⟨index, keyHash raw, raw, cosignature⟩ :: pendingChecks cosignatures keys
        | none => pendingChecks cosignatures keys :=
  (AnswerRules.ofRule fun _ _ _ => true).pendingChecks_cons cosignatures raw index keys

theorem belongsTo_of_mem_pendingChecks
    {keys : List PublicKey} {check : PendingCheck}
    (h : check ∈ pendingChecks cosignatures keys.zipIdx) : check.BelongsTo keys := by
  obtain ⟨⟨raw, index⟩, hentry, hget⟩ := List.mem_filterMap.mp h
  obtain ⟨cosignature, -, rfl⟩ := Option.map_eq_some_iff.mp hget
  exact ⟨List.mk_mem_zipIdx_iff_getElem?.mp hentry, rfl⟩

/-- What is checked are the witnesses with a cosignature, in their order. -/
theorem map_witness_pendingChecks (keys : List PublicKey) (start : Nat) :
    (pendingChecks cosignatures (keys.zipIdx start)).map PendingCheck.witness =
      (keys.map keyHash).filter cosignatures.contains := by
  induction keys generalizing start with
  | nil => rfl
  | cons raw keys ih =>
      rw [List.zipIdx_cons, pendingChecks_cons, List.map_cons]
      cases hget : cosignatures.get? (keyHash raw) with
      | none =>
          rw [List.filter_cons_of_neg (by simp [KeyTable.contains, hget])]
          exact ih (start + 1)
      | some cosignature =>
          rw [List.filter_cons_of_pos (by simp [KeyTable.contains, hget]), List.map_cons, ih]

end

namespace Verifier

variable {verifier : Verifier}

/-- Every key is imported and hashed once. -/
theorem runAfter_gatherChecks
    (hserves : verifier.provider.NeverFails) (hprovider : verifier.provider.Faithful)
    (cosignatures : KeyTable Cosignature) (keys : List PublicKey) (start : Nat)
    (calls : List Call) :
    (verifier.gatherChecks cosignatures (keys.zipIdx start)).runAfter calls =
      (.ok (pendingChecks cosignatures (keys.zipIdx start)),
        calls ++ keys.flatMap fun key => [.importKey key, .digest key.bytes]) := by
  induction keys generalizing start calls with
  | nil =>
      rw [List.flatMap_nil, List.append_nil]
      rfl
  | cons raw keys ih =>
      rw [List.zipIdx_cons, gatherChecks, Session.runAfter_bind,
        runAfter_importKey hserves hprovider]
      simp only [Session.runAfter_bind, runAfter_hashKey hserves hprovider, ih, pendingChecks_cons]
      cases cosignatures.get? (keyHash raw) with
      | none => simp
      | some cosignature => simp

end Verifier

/-! ## The two accounts -/

namespace Tally

/-- Both accounts tell the same set of witnesses with the given keys. -/
def InStep (tally : Tally) (keys : List PublicKey) : Prop :=
  tally.found = keys.map fun key => if tally.present.contains (keyHash key) then 1 else 0

variable {tally : Tally} {keys : List PublicKey}

theorem inStep_nobody (keys : List PublicKey) : (nobody keys.length).InStep keys := by
  simp [InStep, nobody, List.map_const']

/-- In accounts that are in step, a one stands exactly for the witnesses that are present. -/
theorem InStep.getElem?_eq_one_iff
    (h : tally.InStep keys) {index : Nat} {key : PublicKey} (hkey : keys[index]? = some key) :
    tally.found[index]? = some 1 ↔ keyHash key ∈ tally.present := by
  rw [h, List.getElem?_map, hkey, Option.map_some, Option.some.injEq, ← List.contains_iff_mem]
  cases tally.present.contains (keyHash key) <;> decide

/-- Counting a witness keeps the accounts in step. -/
theorem InStep.add
    (h : tally.InStep keys) (hnodup : (keys.map keyHash).Nodup) {check : PendingCheck}
    (hcheck : check.BelongsTo keys) : (tally.add check).InStep keys := by
  obtain ⟨hkey, hwitness⟩ := hcheck
  rw [InStep, Tally.add, h, hwitness, map_mark_cons hnodup hkey]

theorem inStep_ofPassed
    (hnodup : (keys.map keyHash).Nodup) {passed : List PendingCheck}
    (hpassed : ∀ check ∈ passed, check.BelongsTo keys) :
    (ofPassed keys.length passed).InStep keys := by
  induction passed using List.reverseRecOn with
  | nil => exact inStep_nobody keys
  | append_singleton passed check ih =>
      rw [List.forall_mem_append, List.forall_mem_singleton] at hpassed
      rw [ofPassed_concat]
      exact (ih hpassed.1).add hnodup hpassed.2

end Tally

namespace TrustPolicy

variable {policy : TrustPolicy}

/-- Whether a set of witnesses is a quorum. -/
def holdsFor (policy : TrustPolicy) (present : KeyHash → Bool) : Bool :=
  match policy with
  | .tree policy => policy.isQuorum present
  | .compiled policy => policy.evaluate (policy.marks present)

/-- As long as the accounts are in step, the test is one of the set that they tell. -/
theorem isSatisfied_eq_holdsFor
    {tally : Tally}
    (h : tally.InStep policy.witnessKeys) {present : KeyHash → Bool}
    (hpresent : ∀ name, present name = true ↔ name ∈ tally.present) :
    policy.isSatisfied tally.present tally.found = policy.holdsFor present := by
  have hsame : present = fun name => tally.present.contains name := by
    funext name
    rw [Bool.eq_iff_iff, hpresent, List.contains_iff_mem]
  subst hsame
  cases policy with
  | tree policy => rfl
  | compiled compiled =>
      rw [isSatisfied, holdsFor, h]
      rfl

end TrustPolicy

/-! ## Checks made one after another -/

section

variable (provider : Provider) (proof : LoggingProof)

/-- What the witness of a check signs. -/
def PendingCheck.statement (check : PendingCheck) : Bytes :=
  Statement.bytes (Statement.cosigned proof.treeHead.signed.treeHead proof.log
    check.cosignature.timestamp)

/-- The call that a check makes. -/
def PendingCheck.call (check : PendingCheck) : Call :=
  .verify check.key check.cosignature.signature (check.statement proof)

/-- Whether a check passes that is made after the given calls. -/
def PendingCheck.passesAfter (calls : List Call) (check : PendingCheck) : Bool :=
  provider.finds calls check.key check.cosignature.signature (check.statement proof)

/-- Those of some checks that pass if they are made one after another behind the given calls. -/
def passedChecks : List Call → List PendingCheck → List PendingCheck
  | _, [] => []
  | calls, check :: rest =>
    let others := passedChecks (calls ++ [check.call proof]) rest
    if check.passesAfter provider proof calls then check :: others else others

/-- The witnesses of the checks that pass. -/
def cosigners (calls : List Call) (checks : List PendingCheck) (name : KeyHash) : Bool :=
  ((passedChecks provider proof calls checks).map PendingCheck.witness).contains name

/-- What is found for a number of witnesses once the checks have been made. -/
def tallyOf (count : Nat) (calls : List Call) (checks : List PendingCheck) : Tally :=
  Tally.ofPassed count (passedChecks provider proof calls checks)

/-- Whether the last of some checks passes and the witnesses whose checks have passed by then are
a quorum. -/
def endsInQuorum (policy : TrustPolicy) (calls : List Call) (checks : List PendingCheck) : Bool :=
  checks.getLast?.any (fun last =>
      last.passesAfter provider proof
        (calls ++ checks.dropLast.map (PendingCheck.call proof))) &&
    policy.holdsFor (cosigners provider proof calls checks)

theorem passedChecks_concat
    (calls : List Call) (checks : List PendingCheck) (last : PendingCheck) :
    passedChecks provider proof calls (checks ++ [last]) =
      passedChecks provider proof calls checks ++
        if last.passesAfter provider proof (calls ++ checks.map (PendingCheck.call proof))
        then [last] else [] := by
  induction checks generalizing calls with
  | nil => simp [passedChecks]
  | cons check checks ih =>
      rw [List.cons_append, passedChecks, passedChecks, ih, List.append_assoc,
        List.singleton_append, List.map_cons]
      split
      · rw [List.cons_append]
      · rfl

theorem tallyOf_concat
    (count : Nat) (calls : List Call) (checks : List PendingCheck) (last : PendingCheck) :
    tallyOf provider proof count calls (checks ++ [last]) =
      if last.passesAfter provider proof (calls ++ checks.map (PendingCheck.call proof))
      then (tallyOf provider proof count calls checks).add last
      else tallyOf provider proof count calls checks := by
  rw [tallyOf, passedChecks_concat]
  split
  · rw [Tally.ofPassed_concat, tallyOf]
  · rw [List.append_nil, tallyOf]

theorem mem_of_mem_passedChecks
    {calls : List Call} {checks : List PendingCheck} {check : PendingCheck}
    (h : check ∈ passedChecks provider proof calls checks) : check ∈ checks := by
  induction checks generalizing calls with
  | nil => exact h
  | cons first rest ih =>
      rw [passedChecks] at h
      split at h
      · exact (List.mem_cons.mp h).elim (fun heq => heq ▸ List.mem_cons_self)
          fun hrest => List.mem_cons_of_mem _ (ih hrest)
      · exact List.mem_cons_of_mem _ (ih h)

theorem endsInQuorum_nil (policy : TrustPolicy) (calls : List Call) :
    endsInQuorum provider proof policy calls [] = false := rfl

theorem endsInQuorum_concat
    (policy : TrustPolicy) (calls : List Call) (checks : List PendingCheck) (last : PendingCheck) :
    endsInQuorum provider proof policy calls (checks ++ [last]) =
      (last.passesAfter provider proof (calls ++ checks.map (PendingCheck.call proof)) &&
        policy.holdsFor (cosigners provider proof calls (checks ++ [last]))) := by
  simp [endsInQuorum]

theorem cosigners_iff_mem_tallyOf
    {count : Nat} {calls : List Call} {checks : List PendingCheck} {name : KeyHash} :
    cosigners provider proof calls checks name = true ↔
      name ∈ (tallyOf provider proof count calls checks).present := by
  rw [cosigners, tallyOf, Tally.ofPassed_eq, List.contains_iff_mem, List.mem_reverse]

theorem inStep_tallyOf
    {keys : List PublicKey} (hnodup : (keys.map keyHash).Nodup) {checks : List PendingCheck}
    (hchecks : ∀ check ∈ checks, check.BelongsTo keys) (calls : List Call) :
    (tallyOf provider proof keys.length calls checks).InStep keys :=
  Tally.inStep_ofPassed hnodup fun check hcheck =>
    hchecks check (mem_of_mem_passedChecks provider proof hcheck)

end

namespace Verifier

theorem getD_find?_inits_subset
    {α : Type} (p : List α → Bool) (xs : List α) : (xs.inits.find? p).getD xs ⊆ xs := by
  cases hfirst : xs.inits.find? p with
  | none => exact List.Subset.refl xs
  | some front =>
      exact ((List.mem_inits front xs).mp (List.mem_of_find?_eq_some hfirst)).subset

/-- The loop over some checks and others behind them stops among the former, or goes on to the others
with what it has found by then. -/
theorem completeChecks_append
    (verifier : Verifier) (policy : TrustPolicy) (head : TreeHead) (log : KeyHash) (tally : Tally)
    (front back : List PendingCheck) :
    verifier.completeChecks policy head log tally (front ++ back) =
      verifier.completeChecks policy head log tally front >>= fun completed =>
        if completed.1 then pure completed
        else verifier.completeChecks policy head log completed.2 back := by
  induction front generalizing tally with
  | nil => rfl
  | cons check front ih =>
      rw [List.cons_append, completeChecks, completeChecks, bind_assoc]
      apply bind_congr
      intro valid
      cases valid with
      | false => exact ih tally
      | true =>
          simp only [if_true]
          split
          · rfl
          · exact ih _

theorem runAfter_completeChecks_append
    {verifier : Verifier} {policy : TrustPolicy} {head : TreeHead} {log : KeyHash}
    {tally reached : Tally} {front : List PendingCheck} {calls later : List Call} {stopped : Bool}
    (h : (verifier.completeChecks policy head log tally front).runAfter calls =
      (.ok (stopped, reached), later))
    (back : List PendingCheck) :
    (verifier.completeChecks policy head log tally (front ++ back)).runAfter calls =
      (if stopped then pure (true, reached)
        else verifier.completeChecks policy head log reached back).runAfter later := by
  rw [completeChecks_append, Session.runAfter_bind, h]
  cases stopped with
  | false => rfl
  | true => rfl

/-- How the loop goes on that has made some checks behind the given calls and has others left. -/
def runBehind (verifier : Verifier) (policy : TrustPolicy) (proof : LoggingProof)
    (calls : List Call) (done rest : List PendingCheck) :
    Except VerifyError (Bool × Tally) × List Call :=
  (verifier.completeChecks policy proof.treeHead.signed.treeHead proof.log
      (tallyOf verifier.provider proof policy.witnessKeys.length calls done) rest).runAfter
    (calls ++ done.map (PendingCheck.call proof))

variable {verifier : Verifier} {policy : TrustPolicy} {proof : LoggingProof} {calls : List Call}
  {done rest : List PendingCheck} {check : PendingCheck}

/-- One check is made.  The loop stops if it ends in a quorum, and goes on behind the check
otherwise. -/
theorem runBehind_cons
    (hserves : verifier.provider.NeverFails)
    (hchecks : ∀ other ∈ done ++ [check], other.BelongsTo policy.witnessKeys) :
    verifier.runBehind policy proof calls done (check :: rest) =
      if endsInQuorum verifier.provider proof policy calls (done ++ [check]) then
        (.ok (true,
            tallyOf verifier.provider proof policy.witnessKeys.length calls (done ++ [check])),
          calls ++ (done ++ [check]).map (PendingCheck.call proof))
      else verifier.runBehind policy proof calls (done ++ [check]) rest := by
  have hsatisfied := TrustPolicy.isSatisfied_eq_holdsFor
    (inStep_tallyOf verifier.provider proof policy.nodup_witnessKeys hchecks calls)
    fun _ => cosigners_iff_mem_tallyOf verifier.provider proof
  have hcall : (verifier.verify check.key check.cosignature.signature
      (check.statement proof)).runAfter (calls ++ done.map (PendingCheck.call proof)) =
        (.ok (check.passesAfter verifier.provider proof
          (calls ++ done.map (PendingCheck.call proof))),
          calls ++ (done ++ [check]).map (PendingCheck.call proof)) := by
    rw [runAfter_verify hserves, List.map_append, List.append_assoc]
    rfl
  rw [runBehind, completeChecks, Session.runAfter_bind, ← PendingCheck.statement, hcall,
    endsInQuorum_concat, ← hsatisfied, runBehind, tallyOf_concat]
  cases check.passesAfter verifier.provider proof
      (calls ++ done.map (PendingCheck.call proof)) with
  | false => rfl
  | true =>
      simp only [if_true, Bool.true_and]
      split
      · rfl
      · rfl

/-- The checks are made up to the first that ends in a quorum, or all of them if there is none. -/
theorem runBehind_eq
    (hserves : verifier.provider.NeverFails)
    (hchecks : ∀ check ∈ done ++ rest, check.BelongsTo policy.witnessKeys)
    (hdone : endsInQuorum verifier.provider proof policy calls done = false) :
    let first := rest.inits.find? fun front =>
      endsInQuorum verifier.provider proof policy calls (done ++ front)
    let made := done ++ first.getD rest
    verifier.runBehind policy proof calls done rest =
      (.ok (first.isSome, tallyOf verifier.provider proof policy.witnessKeys.length calls made),
        calls ++ made.map (PendingCheck.call proof)) := by
  induction rest generalizing done with
  | nil =>
      simp only [List.inits, List.find?_singleton, List.append_nil, hdone, Bool.false_eq_true,
        if_false, Option.getD_none]
      rfl
  | cons check rest ih =>
      have hnext : ∀ other ∈ (done ++ [check]) ++ rest, other.BelongsTo policy.witnessKeys := by
        rwa [← List.append_cons]
      have hfront : (fun front => endsInQuorum verifier.provider proof policy calls
          (done ++ front)) ∘ List.cons check =
            fun front => endsInQuorum verifier.provider proof policy calls
              ((done ++ [check]) ++ front) := by
        funext front
        rw [Function.comp_apply, List.append_cons]
      rw [runBehind_cons hserves fun other hother => hnext other (List.mem_append_left _ hother)]
      simp only [List.inits_cons, List.find?_cons, List.append_nil, hdone, List.find?_map, hfront]
      cases hends : endsInQuorum verifier.provider proof policy calls (done ++ [check]) with
      | false =>
          rw [if_neg Bool.false_ne_true, ih hnext hends]
          cases rest.inits.find? fun front => endsInQuorum verifier.provider proof policy calls
              ((done ++ [check]) ++ front) with
          | none => simp
          | some front => simp
      | true =>
          have hfirst : (rest.inits.find? fun front => endsInQuorum verifier.provider proof policy
              calls ((done ++ [check]) ++ front)) = some [] := by
            cases rest with
            | nil => simp [hends]
            | cons _ _ => rw [List.inits_cons, List.find?_cons, List.append_nil, hends]
          rw [hfirst, if_pos rfl]
          rfl

/-- The loop from its start, with nothing found yet. -/
theorem runAfter_completeChecks
    (hserves : verifier.provider.NeverFails)
    (hchecks : ∀ check ∈ done, check.BelongsTo policy.witnessKeys) (proof : LoggingProof)
    (calls : List Call) :
    let stop := done.inits.find? (endsInQuorum verifier.provider proof policy calls)
    let made := stop.getD done
    (verifier.completeChecks policy proof.treeHead.signed.treeHead proof.log
        (Tally.nobody policy.witnessKeys.length) done).runAfter calls =
      (.ok (stop.isSome, tallyOf verifier.provider proof policy.witnessKeys.length calls made),
        calls ++ made.map (PendingCheck.call proof)) := by
  have hrun := runBehind_eq hserves hchecks
    (endsInQuorum_nil verifier.provider proof policy calls)
  rw [runBehind, List.map_nil, List.append_nil] at hrun
  exact hrun

theorem isSatisfied_nobody_eq_holdsFor (policy : TrustPolicy) :
    policy.isSatisfied (Tally.nobody policy.witnessKeys.length).present
        (Tally.nobody policy.witnessKeys.length).found =
      policy.holdsFor fun _ => false :=
  TrustPolicy.isSatisfied_eq_holdsFor (Tally.inStep_nobody policy.witnessKeys) fun _ => by
    simp [Tally.nobody]

/-- If nobody has to cosign, the quorum gate is passed without a call.  Otherwise every witness key
is imported and hashed once, and the cosignatures are checked one by one, in the order of the
witnesses' hashes, up to the first check that passes and with which those that passed are a quorum.
The gate is passed exactly if there is such a check, and all cosignatures are checked if there is
none.  After any number of its checks, the first of them that stops it included, the loop has found
in both of its accounts the same set: the witnesses whose checks have passed.  It is with this that
it goes on. -/
theorem checkQuorum_stops_at_first_quorum
    {provider : Provider} (hserves : provider.NeverFails) (hprovider : provider.Faithful)
    (policy : TrustPolicy) (proof : LoggingProof) :
    let keys := policy.witnessKeys
    let outcome := ((ascending provider).checkQuorum policy proof).outcome
    let gathering : List Call := keys.flatMap fun key => [.importKey key, .digest key.bytes]
    let checks := pendingChecks proof.treeHead.cosignatures keys.zipIdx
    let ends := endsInQuorum provider proof policy gathering
    let first := checks.inits.find? ends
    let loop := (ascending provider).completeChecks policy proof.treeHead.signed.treeHead proof.log
    (keys.map keyHash).Pairwise (· < ·) ∧
      checks.map PendingCheck.witness =
        (keys.map keyHash).filter proof.treeHead.cosignatures.contains ∧
      (policy.holdsFor (fun _ => false) = true → outcome = (.ok true, [])) ∧
      (policy.holdsFor (fun _ => false) = false →
        outcome = (.ok first.isSome,
            gathering ++ (first.getD checks).map (PendingCheck.call proof)) ∧
          outcome = (Prod.fst <$> loop (Tally.nobody keys.length) checks).runAfter gathering) ∧
      ∀ done rest, checks = done ++ rest →
        let stop := done.inits.find? ends
        let made := stop.getD done
        ∃ tally : Tally,
          (loop (Tally.nobody keys.length) done).runAfter gathering =
              (.ok (stop.isSome, tally), gathering ++ made.map (PendingCheck.call proof)) ∧
            (loop (Tally.nobody keys.length) checks).runAfter gathering =
              (if stop.isSome then pure (true, tally) else loop tally rest).runAfter
                (gathering ++ made.map (PendingCheck.call proof)) ∧
            (∀ name, name ∈ tally.present ↔ cosigners provider proof gathering made name = true) ∧
            ∀ (index : Nat) (key : PublicKey), keys[index]? = some key →
              (tally.found[index]? = some 1 ↔ keyHash key ∈ tally.present) := by
  intro keys outcome gathering checks ends first loop
  have hserves' : (ascending provider).provider.NeverFails := hserves
  have hbelongs : ∀ check ∈ checks, check.BelongsTo keys := fun check =>
    belongsTo_of_mem_pendingChecks proof.treeHead.cosignatures
  refine ⟨policy.pairwise_witnessKeys, map_witness_pendingChecks _ _ _, ?_, ?_, ?_⟩
  · intro hnobody
    simp only [outcome, checkQuorum, isSatisfied_nobody_eq_holdsFor, hnobody, if_true]
    rfl
  · intro hsomebody
    have hrun : outcome =
        (Prod.fst <$> loop (Tally.nobody keys.length) checks).runAfter gathering := by
      have hgather := runAfter_gatherChecks hserves' hprovider proof.treeHead.cosignatures keys 0 []
      simp only [outcome, checkQuorum, isSatisfied_nobody_eq_holdsFor, hsomebody,
        Bool.false_eq_true, if_false]
      refine (Session.runAfter_bind _ _ _).trans ?_
      rw [hgather]
      rfl
    refine ⟨?_, hrun⟩
    rw [hrun, map_eq_pure_bind, Session.runAfter_bind, runAfter_completeChecks hserves' hbelongs]
    rfl
  · intro done rest hsplit stop made
    have hfront : ∀ check ∈ done, check.BelongsTo keys := fun check hcheck =>
      hbelongs check (hsplit ▸ List.mem_append_left rest hcheck)
    have hmade : ∀ check ∈ made, check.BelongsTo keys := fun check hcheck =>
      hfront check (getD_find?_inits_subset ends done hcheck)
    have hrun := runAfter_completeChecks hserves' hfront proof gathering
    refine ⟨tallyOf provider proof keys.length gathering made, hrun, ?_, ?_, ?_⟩
    · simp only [loop]
      rw [hsplit]
      exact runAfter_completeChecks_append hrun rest
    · exact fun name => (cosigners_iff_mem_tallyOf provider proof).symm
    · intro index key hkey
      have hinStep : (tallyOf provider proof keys.length gathering made).InStep keys :=
        inStep_tallyOf provider proof policy.nodup_witnessKeys hmade gathering
      exact hinStep.getElem?_eq_one_iff hkey

/-- A provider that takes all signatures for valid. -/
def acceptingProvider : Provider :=
  .ofRule fun _ _ _ => true

theorem checkQuorum_acceptingProvider :
    ((ascending acceptingProvider).checkQuorum (.compiled .sampleUneven) .sample).outcome.1 =
        .ok true ∧
      ((ascending acceptingProvider).checkQuorum (.compiled .sampleUneven)
        .sample).outcome.2.length = 5 := by
  decide +kernel

/-- Two keys are imported and hashed.  The first of the two cosigners is a quorum, so the second is
not checked, with whom they would be none. -/
theorem checkQuorum_sampleUneven_stops :
    let keys := (TrustPolicy.compiled .sampleUneven).witnessKeys
    let gathering : List Call := keys.flatMap fun key => [.importKey key, .digest key.bytes]
    let checks := pendingChecks LoggingProof.sample.treeHead.cosignatures keys.zipIdx
    let first := checks.inits.find?
      (endsInQuorum acceptingProvider .sample (.compiled .sampleUneven) gathering)
    acceptingProvider.NeverFails ∧ acceptingProvider.Faithful ∧
      (TrustPolicy.compiled .sampleUneven).holdsFor (fun _ => false) = false ∧
      checks.length = 2 ∧ first.isSome = true ∧ (first.getD checks).length = 1 := by
  intro keys gathering checks first
  have hserves : acceptingProvider.NeverFails := Provider.neverFails_ofRule _
  have hprovider : acceptingProvider.Faithful := Provider.faithful_ofRule _
  have hsomebody : (TrustPolicy.compiled .sampleUneven).holdsFor (fun _ => false) = false := by
    decide +kernel
  obtain ⟨-, -, -, hrun, -⟩ := checkQuorum_stops_at_first_quorum hserves hprovider
    (.compiled .sampleUneven) .sample
  obtain ⟨hpassed, hlength⟩ := checkQuorum_acceptingProvider
  rw [(hrun hsomebody).1] at hpassed hlength
  have hgathering : gathering.length = 4 := rfl
  refine ⟨hserves, hprovider, hsomebody, by decide +kernel, Except.ok.inj hpassed, ?_⟩
  rw [List.length_append, List.length_map] at hlength
  exact Nat.add_left_cancel (hlength.trans (congrArg (· + 1) hgathering.symm))

end Verifier

end WitnessedLog
