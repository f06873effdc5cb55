import WitnessedLog.CompiledPolicy
import WitnessedLog.Policy

/-!
# The policy that a proof is checked against

A policy is at hand either as a rule over key hashes or in compiled form.  Both answer the same three
questions: which key a log has, which witnesses there are, and whether those who cosigned suffice.
-/

namespace WitnessedLog

/-- A policy in one of its two forms. -/
inductive TrustPolicy where
  | tree (policy : Policy)
  | compiled (policy : CompiledPolicy)

namespace TrustPolicy

/-- The key of the log that a key hash names, if the policy trusts it. -/
def log? : TrustPolicy → KeyHash → Option PublicKey
  | .tree policy, name => (policy.logs.get? name).map Entity.publicKey
  | .compiled policy, name => policy.log? name

/-- The keys of the witnesses, in ascending order of their hashes. -/
def witnessKeys : TrustPolicy → List PublicKey
  | .tree policy => policy.witnesses.publicKeys
  | .compiled policy => policy.witnesses

/-- Whether the quorum is satisfied.  The witnesses that cosigned are given twice: by key hash, and
by a one at their positions. -/
def isSatisfied (policy : TrustPolicy) (present : List KeyHash) (found : Bytes) : Bool :=
  match policy with
  | .tree policy => policy.isQuorum (fun name => present.contains name)
  | .compiled policy => policy.evaluate found

end TrustPolicy

end WitnessedLog
