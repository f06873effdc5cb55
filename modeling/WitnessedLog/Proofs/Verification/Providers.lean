import WitnessedLog.Capability.Prescribed
import WitnessedLog.Proofs.Verification.Sessions

/-!
# What is known of providers

A provider may fail and may judge signatures as it likes, and yet hand back the keys that it
is given and digest with SHA-256.  All that a verifier knows of keys and hashes is then true
of them.  A provider may also never fail and answer by rules, whatever was called before; no
call then depends on another.
-/

namespace WitnessedLog

/-- Imported keys are the keys that were given, and digests are those of SHA-256. -/
structure Provider.Faithful (provider : Provider) : Prop where
  importKey : ∀ calls key imported, provider.importKey calls key = .ok imported → imported = key
  digest : ∀ calls data hash, provider.digest calls data = .ok hash → hash = sha256 data

/-- The answers of a provider that never fails and does not look at earlier calls. -/
structure AnswerRules where
  importKey : PublicKey → PublicKey
  digest : Bytes → Hash
  valid : PublicKey → Signature → Bytes → Bool

/-- The rules that hand back keys and digest with SHA-256. -/
def AnswerRules.ofRule (valid : PublicKey → Signature → Bytes → Bool) : AnswerRules :=
  ⟨id, sha256, valid⟩

/-- The hash by which an imported key is known. -/
def AnswerRules.keyHash (rules : AnswerRules) (key : PublicKey) : KeyHash :=
  (rules.digest key.bytes).asKeyHash

namespace Provider

/-- The provider that answers by given rules. -/
def ofRules (rules : AnswerRules) : Provider where
  importKey _ key := .ok (rules.importKey key)
  digest _ data := .ok (rules.digest data)
  verify _ key signature message := .ok (rules.valid key signature message)

theorem ofRule_eq_ofRules (valid : PublicKey → Signature → Bytes → Bool) :
    ofRule valid = ofRules (.ofRule valid) := rfl

theorem faithful_ofRule (valid : PublicKey → Signature → Bytes → Bool) :
    (ofRule valid).Faithful where
  importKey := by
    intro calls key imported h
    cases h
    rfl
  digest := by
    intro calls data hash h
    cases h
    rfl

/-- Prescriptions make calls fail or change verdicts, and so leave a provider faithful. -/
theorem Faithful.prescribed
    {provider : Provider}
    (h : provider.Faithful) (answers : Prescriptions) :
    (provider.prescribed answers).Faithful where
  importKey := by
    intro calls key imported himport
    simp only [Provider.prescribed] at himport
    split at himport
    · cases himport
    · exact h.importKey calls key imported himport
  digest := by
    intro calls data hash hdigest
    simp only [Provider.prescribed] at hdigest
    split at hdigest
    · cases hdigest
    · exact h.digest calls data hash hdigest

end Provider

namespace Verifier

variable {verifier : Verifier}

theorem eq_of_importKey_ok
    (hprovider : verifier.provider.Faithful)
    {key imported : PublicKey} {calls later : List Call}
    (h : (verifier.importKey key).runAfter calls = (.ok imported, later)) : imported = key := by
  obtain ⟨hanswer, -⟩ := Session.runAfter_call_eq_ok_iff.mp h
  exact hprovider.importKey calls key imported hanswer

theorem eq_of_digest_ok
    (hprovider : verifier.provider.Faithful)
    {data : Bytes} {hash : Hash} {calls later : List Call}
    (h : (verifier.digest data).runAfter calls = (.ok hash, later)) : hash = sha256 data := by
  obtain ⟨hanswer, -⟩ := Session.runAfter_call_eq_ok_iff.mp h
  exact hprovider.digest calls data hash hanswer

theorem eq_of_hashKey_ok
    (hprovider : verifier.provider.Faithful)
    {key : PublicKey} {name : KeyHash} {calls later : List Call}
    (h : (verifier.hashKey key).runAfter calls = (.ok name, later)) : name = keyHash key := by
  obtain ⟨hash, between, hdigest, hpure⟩ := Session.exists_of_runAfter_bind_ok h
  rw [eq_of_digest_ok hprovider hdigest] at hpure
  cases hpure
  rfl

/-! ## Answers by rules -/

section

variable {rules : AnswerRules}

theorem yields_importKey_of_rules
    (h : verifier.provider = .ofRules rules) (key : PublicKey) :
    (verifier.importKey key).Yields (.ok (rules.importKey key)) := by
  rw [importKey, h]
  exact Session.yields_call _ (.ok (rules.importKey key))

theorem yields_digest_of_rules
    (h : verifier.provider = .ofRules rules) (data : Bytes) :
    (verifier.digest data).Yields (.ok (rules.digest data)) := by
  rw [digest, h]
  exact Session.yields_call _ (.ok (rules.digest data))

theorem yields_verify_of_rules
    (h : verifier.provider = .ofRules rules)
    (key : PublicKey) (signature : Signature) (message : Bytes) :
    (verifier.verify key signature message).Yields (.ok (rules.valid key signature message)) := by
  rw [verify, h]
  exact Session.yields_call _ (.ok (rules.valid key signature message))

theorem yields_hashKey_of_rules
    (h : verifier.provider = .ofRules rules) (key : PublicKey) :
    (verifier.hashKey key).Yields (.ok (rules.keyHash key)) :=
  (yields_digest_of_rules h key.bytes).bind (Session.yields_pure _)

end

/-! ## Verdicts by a rule -/

variable {valid : PublicKey → Signature → Bytes → Bool}

theorem yields_importKey
    (h : verifier.provider = .ofRule valid) (key : PublicKey) :
    (verifier.importKey key).Yields (.ok key) :=
  yields_importKey_of_rules (h.trans (Provider.ofRule_eq_ofRules valid)) key

theorem yields_digest
    (h : verifier.provider = .ofRule valid) (data : Bytes) :
    (verifier.digest data).Yields (.ok (sha256 data)) :=
  yields_digest_of_rules (h.trans (Provider.ofRule_eq_ofRules valid)) data

theorem yields_verify
    (h : verifier.provider = .ofRule valid)
    (key : PublicKey) (signature : Signature) (message : Bytes) :
    (verifier.verify key signature message).Yields (.ok (valid key signature message)) :=
  yields_verify_of_rules (h.trans (Provider.ofRule_eq_ofRules valid)) key signature message

theorem yields_hashKey
    (h : verifier.provider = .ofRule valid) (key : PublicKey) :
    (verifier.hashKey key).Yields (.ok (keyHash key)) :=
  yields_hashKey_of_rules (h.trans (Provider.ofRule_eq_ofRules valid)) key

end Verifier

end WitnessedLog
