import WitnessedLog.Key
import WitnessedLog.KeyTable
import WitnessedLog.Quorum

/-!
# Trust policies

A policy lists the logs and witnesses that are trusted and the quorum of witnesses that a tree head
needs.  It is drafted step by step and then sealed.  Each log and witness is filed under the hash of
its own key; a sealed policy also guarantees that the thresholds of its quorum suit their groups and
that the quorum names no witness outside the policy.
-/

namespace WitnessedLog

/-- Why a policy, or the text of one, is refused. -/
inductive PolicyError where
  | duplicateLog (log : KeyHash)
  | duplicateWitness (witness : KeyHash)
  | quorumAlreadySet
  | noQuorum
  | invalidThreshold (threshold members : Nat)
  | unknownWitness (witness : KeyHash)
  | unknownKeyword (keyword : String)
  | logSyntax
  | witnessSyntax
  | groupSyntax
  | quorumSyntax
  | duplicateName (name : String)
  | undefinedName (name : String)
  | invalidKeyLength
  | invalidKeyEncoding (cause : EncodingError)
  deriving DecidableEq

/-- The sentence shown for a policy error. -/
def PolicyError.message : PolicyError → String
  | .duplicateLog log => "Duplicate log key: " ++ log.toHex
  | .duplicateWitness witness => "Duplicate witness key: " ++ witness.toHex
  | .quorumAlreadySet => "quorum can only be set once"
  | .noQuorum => "no quorum defined"
  | .invalidThreshold threshold members =>
    s!"invalid threshold: {threshold} of {members}"
  | .unknownWitness witness =>
    "quorum references witness " ++ witness.toHex ++ " missing from policy"
  | .unknownKeyword keyword => "Unknown keyword: " ++ keyword
  | .logSyntax => "log line must include pubkey and optional URL"
  | .witnessSyntax => "witness line must include name and pubkey and optional URL"
  | .groupSyntax => "group requires name, threshold, and members"
  | .quorumSyntax => "quorum requires a single name"
  | .duplicateName name => "duplicate name: " ++ name
  | .undefinedName name => "undefined name: " ++ name
  | .invalidKeyLength => "Ed25519 raw keys must be exactly 32-bytes"
  | .invalidKeyEncoding cause => "invalid public key: " ++ cause.message

/-- A log or a witness: its key, and where it is reached. -/
structure Entity where
  publicKey : PublicKey
  url : Option String
  deriving DecidableEq

/-- The key hash by which an entity is known. -/
def Entity.name (entity : Entity) : KeyHash :=
  keyHash entity.publicKey

/-- Entities, each filed under the hash of its own key. -/
structure Roster extends KeyTable Entity where
  filed : ∀ entry ∈ entries, entry.2.name = entry.1
  deriving DecidableEq

namespace Roster

/-- The roster of no entities. -/
def empty : Roster where
  toKeyTable := KeyTable.empty
  filed := by simp [KeyTable.empty]

/-- The roster with one more entity, unless its key is already listed. -/
def add? (roster : Roster) (entity : Entity) : Option Roster :=
  if roster.contains entity.name then none
  else some {
    toKeyTable := roster.insert entity.name entity
    filed := by
      intro entry hentry
      rcases KeyTable.mem_place hentry with rfl | hentry
      · rfl
      · exact roster.filed entry hentry }

/-- The public keys of a roster, in ascending order of their hashes. -/
def publicKeys (roster : Roster) : List PublicKey :=
  roster.values.map Entity.publicKey

end Roster

namespace Quorum

/-- Check the thresholds and witnesses of a rule from left to right, each group before its
members. -/
def check (known : KeyHash → Bool) : Quorum KeyHash → Except PolicyError Unit :=
  fold
    (fun name => if known name then .ok () else .error (.unknownWitness name))
    (fun threshold results =>
      if ThresholdFits threshold results.length then results.forM id
      else .error (.invalidThreshold threshold results.length))

theorem forM_id_eq_ok_iff
    {results : List (Except PolicyError Unit)} :
    results.forM id = .ok () ↔ ∀ result ∈ results, result = .ok () := by
  induction results with
  | nil => simp [List.forM, pure, Except.pure]
  | cons first rest ih =>
    cases first with
    | error e => simp [List.forM_cons, bind, Except.bind]
    | ok u => simpa [List.forM_cons, bind, Except.bind] using ih

/-- The check passes exactly for the well-formed rules over known witnesses. -/
theorem check_eq_ok_iff
    {known : KeyHash → Bool} {quorum : Quorum KeyHash} :
    quorum.check known = .ok () ↔ quorum.WellFormed ∧ ∀ name ∈ quorum.names, known name := by
  induction quorum using Quorum.induction with
  | witness name => by_cases h : known name <;> simp [check, h]
  | group threshold members ih =>
    rw [check, fold_group, List.length_map, ← check, wellFormed_group, names_group]
    by_cases h : ThresholdFits threshold members.length
    · simp only [h, if_true, true_and, forM_id_eq_ok_iff, List.forall_mem_map]
      constructor
      · intro hall
        refine ⟨fun member hm => ((ih member hm).mp (hall member hm)).1, ?_⟩
        intro name hname
        obtain ⟨member, hm, hname⟩ := List.mem_flatMap.mp hname
        exact ((ih member hm).mp (hall member hm)).2 name hname
      · rintro ⟨hwf, hknown⟩ member hm
        exact (ih member hm).mpr ⟨hwf member hm, fun name hname =>
          hknown name (List.mem_flatMap.mpr ⟨member, hm, hname⟩)⟩
    · simp [h]

/-- A group whose threshold is between one and the number of its members. -/
def ofThreshold (threshold : Nat) (members : List (Quorum KeyHash)) :
    Except PolicyError (Quorum KeyHash) :=
  if 1 ≤ threshold ∧ threshold ≤ members.length then .ok (.group threshold members)
  else .error (.invalidThreshold threshold members.length)

end Quorum

/-- A sealed trust policy. -/
structure Policy where
  logs : Roster
  witnesses : Roster
  quorum : Quorum KeyHash
  wellFormed : quorum.WellFormed
  closed : ∀ name ∈ quorum.names, witnesses.contains name = true

/-- Whether the quorum of a policy is satisfied by the witnesses that are present. -/
def Policy.isQuorum (policy : Policy) (present : KeyHash → Bool) : Bool :=
  policy.quorum.isSatisfied present

namespace Policy

/-- A policy under construction. -/
structure Draft where
  logs : Roster
  witnesses : Roster
  quorum : Option (Quorum KeyHash)

namespace Draft

/-- The draft with nothing in it. -/
def empty : Draft :=
  ⟨Roster.empty, Roster.empty, none⟩

/-- Trust a log. -/
def addLog (draft : Draft) (log : Entity) : Except PolicyError Draft :=
  match draft.logs.add? log with
  | some logs => .ok { draft with logs }
  | none => .error (.duplicateLog log.name)

/-- Trust a witness. -/
def addWitness (draft : Draft) (witness : Entity) : Except PolicyError Draft :=
  match draft.witnesses.add? witness with
  | some witnesses => .ok { draft with witnesses }
  | none => .error (.duplicateWitness witness.name)

/-- Choose the quorum. -/
def setQuorum (draft : Draft) (quorum : Quorum KeyHash) : Except PolicyError Draft :=
  match draft.quorum with
  | some _ => .error .quorumAlreadySet
  | none => .ok { draft with quorum := some quorum }

/-- Seal a draft whose quorum is chosen, well-formed and over the draft's own witnesses. -/
def finalize (draft : Draft) : Except PolicyError Policy :=
  match draft.quorum with
  | none => .error .noQuorum
  | some quorum =>
    match h : quorum.check draft.witnesses.contains with
    | .error e => .error e
    | .ok () => .ok {
        logs := draft.logs
        witnesses := draft.witnesses
        quorum := quorum
        wellFormed := (Quorum.check_eq_ok_iff.mp h).1
        closed := (Quorum.check_eq_ok_iff.mp h).2 }

end Draft

end Policy

end WitnessedLog
