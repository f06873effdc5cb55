import WitnessedLog.Capability

/-!
# Prescribed answers

A provider whose answers are prescribed for some calls, by the position of a call among those of its
kind.  All other calls are passed on.  This makes failures and odd verdicts of a provider available
to experiments.
-/

namespace WitnessedLog

/-- An answer prescribed for a call. -/
inductive Prescription where
  /-- the verdict on a signature -/
  | verdict (valid : Bool)
  /-- the failure of a capability -/
  | failure (cause : CryptoError)
  deriving DecidableEq

/-- Prescriptions for the calls of each kind, in order; nothing stands for no prescription. -/
structure Prescriptions where
  imports : List (Option Prescription)
  digests : List (Option Prescription)
  verdicts : List (Option Prescription)

namespace Call

/-- Whether a call imports a key. -/
def isImport : Call → Bool
  | .importKey _ => true
  | _ => false

/-- Whether a call digests bytes. -/
def isDigest : Call → Bool
  | .digest _ => true
  | _ => false

/-- Whether a call checks a signature. -/
def isVerify : Call → Bool
  | .verify _ _ _ => true
  | _ => false

end Call

/-- What is prescribed for the next call of a kind, given the calls made before. -/
def Prescription.next? (kind : Call → Bool) (answers : List (Option Prescription))
    (calls : List Call) : Option Prescription :=
  (answers[calls.countP kind]?).join

namespace Provider

/-- A provider with prescribed answers.  A verdict counts only where a signature is checked. -/
def prescribed (provider : Provider) (answers : Prescriptions) : Provider where
  importKey calls key :=
    match Prescription.next? Call.isImport answers.imports calls with
    | some (.failure cause) => .error cause
    | _ => provider.importKey calls key
  digest calls data :=
    match Prescription.next? Call.isDigest answers.digests calls with
    | some (.failure cause) => .error cause
    | _ => provider.digest calls data
  verify calls key signature message :=
    match Prescription.next? Call.isVerify answers.verdicts calls with
    | some (.failure cause) => .error cause
    | some (.verdict valid) => .ok valid
    | none => provider.verify calls key signature message

end Provider

end WitnessedLog
