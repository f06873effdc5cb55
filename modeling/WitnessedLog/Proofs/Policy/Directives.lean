import WitnessedLog.Policy.Text
import WitnessedLog.Proofs.Fallible

/-!
# Directives of a policy

A line of a policy says the same wherever it stands: which key a log has, or how a group is named,
can be told from its words.  What was read before only decides whether the line can be followed.
So reading a policy is a sequence of steps, one for each line, and each step does one of five
things.
-/

namespace WitnessedLog

namespace Policy

/-- What a line says. -/
inductive Directive where
  /-- nothing -/
  | blank
  /-- trust a log -/
  | log (entity : Entity)
  /-- trust a witness, which gets a name -/
  | witness (name : String) (entity : Entity)
  /-- name the group of some members -/
  | group (name : String) (threshold : Nat) (members : List String)
  /-- choose the quorum -/
  | quorum (name : String)

namespace Directive

/-- A log or a witness with a key in hexadecimal. -/
def entity? (key : String) (url : Option String) : Option Entity :=
  (readKey key).toOption.map fun publicKey => ⟨publicKey, url⟩

/-- What the words of a line say. -/
def ofWords? : List String → Option Directive
  | [] => some .blank
  | "log" :: arguments =>
    match arguments with
    | [key] => (entity? key none).map .log
    | [key, url] => (entity? key (some url)).map .log
    | _ => none
  | "witness" :: arguments =>
    match arguments with
    | [name, key] => (entity? key none).map (.witness name)
    | [name, key, url] => (entity? key (some url)).map (.witness name)
    | _ => none
  | "group" :: arguments =>
    match arguments with
    | name :: threshold :: member :: members =>
      (readThreshold threshold (member :: members).length).toOption.map fun threshold =>
        .group name threshold (member :: members)
    | _ => none
  | "quorum" :: arguments =>
    match arguments with
    | [name] => some (.quorum name)
    | _ => none
  | _ :: _ => none

/-- What a line says. -/
def ofLine? (line : List Char) : Option Directive :=
  ofWords? (Reader.directive line)

end Directive

namespace Reader

/-- What following a directive does. -/
inductive Step (reader : Reader) : Directive → Reader → Prop where
  | blank : Step reader .blank reader
  | log {entity : Entity} {logs : Roster} (hlogs : reader.draft.logs.add? entity = some logs) :
      Step reader (.log entity) { reader with draft := { reader.draft with logs } }
  | witness {name : String} {entity : Entity} {witnesses : Roster}
    (hunused : reader.find? name = none)
    (hwitnesses : reader.draft.witnesses.add? entity = some witnesses) :
      Step reader (.witness name entity)
        (Reader.assign { reader with draft := { reader.draft with witnesses } } name
          (.witness entity.name))
  | group {name : String} {threshold : Nat} {members : List String}
    {rules : List (Quorum KeyHash)} (hunused : reader.find? name = none)
    (hmembers : List.Forall₂ (fun member rule => reader.find? member = some rule) members rules)
    (hthreshold : 1 ≤ threshold ∧ threshold ≤ members.length) :
      Step reader (.group name threshold members)
        (reader.assign name (.group threshold rules))
  | quorum {name : String} {rule : Quorum KeyHash} (hrule : reader.find? name = some rule)
    (hunset : reader.draft.quorum = none) :
      Step reader (.quorum name)
        { reader with draft := { reader.draft with quorum := some rule } }

variable {reader reader' : Reader} {name : String} {rule : Quorum KeyHash}

theorem find?_assign (reader : Reader) (name : String) (rule : Quorum KeyHash) (other : String) :
    (reader.assign name rule).find? other =
      if name = other then some rule else reader.find? other := by
  rw [find?, assign, List.find?_cons]
  by_cases h : name = other
  · simp [h]
  · simp [h, find?]

theorem resolve_eq_ok_iff : reader.resolve name = .ok rule ↔ reader.find? name = some rule := by
  rw [resolve]
  cases reader.find? name with
  | none => simp
  | some found => simp

theorem requireUnused_eq_ok_iff
    {done : Unit} :
    reader.requireUnused name = .ok done ↔ reader.find? name = none := by
  rw [requireUnused]
  cases reader.find? name with
  | none => simp
  | some found => simp

theorem entity?_eq_some_iff
    {key : String} {url : Option String} {entity : Entity} :
    Directive.entity? key url = some entity ↔
      ∃ publicKey, readKey key = .ok publicKey ∧ entity = ⟨publicKey, url⟩ := by
  simp only [Directive.entity?, Option.map_eq_some_iff, toOption_eq_some_iff, eq_comm (b := entity)]

theorem addLog_eq_ok_iff
    {key : String} {url : Option String} :
    reader.addLog key url = .ok reader' ↔
      ∃ entity, Directive.entity? key url = some entity ∧ reader.Step (.log entity) reader' := by
  simp only [addLog, bind_eq_ok_iff, entity?_eq_some_iff]
  constructor
  · rintro ⟨publicKey, hkey, draft, hdraft, hreader⟩
    refine ⟨_, ⟨publicKey, hkey, rfl⟩, ?_⟩
    rw [Draft.addLog] at hdraft
    cases hlogs : reader.draft.logs.add? ⟨publicKey, url⟩ with
    | none =>
        rw [hlogs] at hdraft
        cases hdraft
    | some logs =>
        rw [hlogs] at hdraft
        cases hdraft
        cases hreader
        exact .log hlogs
  · rintro ⟨_, ⟨publicKey, hkey, rfl⟩, hstep⟩
    cases hstep with
    | log hlogs => exact ⟨publicKey, hkey, _, by rw [Draft.addLog, hlogs], rfl⟩

theorem addWitness_eq_ok_iff
    {key : String} {url : Option String} :
    reader.addWitness name key url = .ok reader' ↔
      ∃ entity, Directive.entity? key url = some entity ∧
        reader.Step (.witness name entity) reader' := by
  simp only [addWitness, bind_eq_ok_iff, entity?_eq_some_iff, requireUnused_eq_ok_iff]
  constructor
  · rintro ⟨-, hunused, publicKey, hkey, draft, hdraft, hreader⟩
    refine ⟨_, ⟨publicKey, hkey, rfl⟩, ?_⟩
    rw [Draft.addWitness] at hdraft
    cases hwitnesses : reader.draft.witnesses.add? ⟨publicKey, url⟩ with
    | none =>
        rw [hwitnesses] at hdraft
        cases hdraft
    | some witnesses =>
        rw [hwitnesses] at hdraft
        cases hdraft
        cases hreader
        exact .witness hunused hwitnesses
  · rintro ⟨_, ⟨publicKey, hkey, rfl⟩, hstep⟩
    cases hstep with
    | witness hunused hwitnesses =>
        exact ⟨(), hunused, publicKey, hkey, _, by rw [Draft.addWitness, hwitnesses], rfl⟩

theorem addGroup_eq_ok_iff
    {threshold : String} {members : List String} :
    reader.addGroup name threshold members = .ok reader' ↔
      ∃ k, readThreshold threshold members.length = .ok k ∧
        reader.Step (.group name k members) reader' := by
  simp only [addGroup, bind_eq_ok_iff, requireUnused_eq_ok_iff, mapM_eq_ok_iff, resolve_eq_ok_iff]
  constructor
  · rintro ⟨-, hunused, k, hk, rules, hrules, group, hgroup, hreader⟩
    refine ⟨k, hk, ?_⟩
    rw [Quorum.ofThreshold, ← hrules.length_eq] at hgroup
    split at hgroup
    · rename_i hthreshold
      cases hgroup
      cases hreader
      exact .group hunused hrules hthreshold
    · cases hgroup
  · rintro ⟨k, hk, hstep⟩
    cases hstep with
    | group hunused hrules hthreshold =>
        refine ⟨(), hunused, k, hk, _, hrules, _, ?_, rfl⟩
        rw [Quorum.ofThreshold, ← hrules.length_eq, if_pos hthreshold]

theorem setQuorum_eq_ok_iff :
    reader.setQuorum name = .ok reader' ↔ reader.Step (.quorum name) reader' := by
  simp only [setQuorum, bind_eq_ok_iff, resolve_eq_ok_iff]
  constructor
  · rintro ⟨rule, hrule, draft, hdraft, hreader⟩
    rw [Draft.setQuorum] at hdraft
    split at hdraft
    · cases hdraft
    · rename_i hunset
      cases hdraft
      cases hreader
      exact .quorum hrule hunset
  · intro hstep
    cases hstep with
    | quorum hrule hunset => exact ⟨_, hrule, _, by rw [Draft.setQuorum, hunset], rfl⟩

theorem step_blank_iff : reader.Step .blank reader' ↔ reader = reader' := by
  constructor
  · intro hstep
    cases hstep
    rfl
  · rintro rfl
    exact .blank

/-- A line is followed by a step that does what its words say. -/
theorem follow_eq_ok_iff
    {words : List String} :
    reader.follow words = .ok reader' ↔
      ∃ directive, Directive.ofWords? words = some directive ∧ reader.Step directive reader' := by
  fun_cases Directive.ofWords? words <;>
    simp_all [follow, addLog_eq_ok_iff, addWitness_eq_ok_iff, addGroup_eq_ok_iff,
      setQuorum_eq_ok_iff, step_blank_iff, toOption_eq_some_iff]

theorem readLine_eq_ok_iff
    {line : List Char} :
    reader.readLine line = .ok reader' ↔
      ∃ directive, Directive.ofLine? line = some directive ∧ reader.Step directive reader' :=
  follow_eq_ok_iff

end Reader

/-- Sealing a draft adds nothing to it. -/
theorem Draft.finalize_eq_ok_iff
    {draft : Draft} {policy : Policy} :
    draft.finalize = .ok policy ↔ draft = ⟨policy.logs, policy.witnesses, some policy.quorum⟩ := by
  constructor
  · intro h
    rw [finalize] at h
    split at h
    · cases h
    · rename_i quorum hquorum
      split at h
      · cases h
      · cases h
        rw [← hquorum]
  · rintro rfl
    have hcheck : policy.quorum.check policy.witnesses.contains = .ok () :=
      Quorum.check_eq_ok_iff.mpr ⟨policy.wellFormed, policy.closed⟩
    rw [finalize]
    split
    · rename_i hquorum
      cases hquorum
    · rename_i hquorum
      cases hquorum
      split
      · rename_i e herror
        cases hcheck.symm.trans herror
      · rfl

theorem ofText_eq_ok_iff
    {text : String} {policy : Policy} :
    ofText text = .ok policy ↔
      ∃ reader, (Text.lines text.toList).foldlM Reader.readLine Reader.start = .ok reader ∧
        reader.draft = ⟨policy.logs, policy.witnesses, some policy.quorum⟩ := by
  simp only [ofText, bind_eq_ok_iff, Draft.finalize_eq_ok_iff]

end Policy

end WitnessedLog
