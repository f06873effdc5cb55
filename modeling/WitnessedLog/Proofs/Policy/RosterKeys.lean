import Mathlib.Data.List.Find
import WitnessedLog.Policy.Compile
import WitnessedLog.Proofs.KeyTable

/-!
# The keys of a roster

The public keys of a roster stand in the order of their hashes, so a key hash finds the same
entity whether it is looked up in the roster or searched for among the keys, and its
position tells it apart.
-/

namespace WitnessedLog

namespace Roster

variable (roster : Roster)

theorem map_keyHash_publicKeys : roster.publicKeys.map keyHash = roster.keys := by
  rw [publicKeys, KeyTable.values, KeyTable.keys, List.map_map, List.map_map]
  exact List.map_congr_left roster.filed

theorem map_keyHash_getElem?_publicKeys (id : Nat) :
    (roster.publicKeys[id]?).map keyHash = roster.keys[id]? := by
  rw [← List.getElem?_map, map_keyHash_publicKeys]

/-- An entity is found only under the hash of its own key. -/
theorem keyHash_eq_of_get?
    {roster : Roster} {name : KeyHash} {entity : Entity}
    (h : roster.get? name = some entity) : keyHash entity.publicKey = name :=
  roster.filed (name, entity) (KeyTable.mem_entries_iff.mpr h)

/-- A key is listed if it is the key of an entity that is filed under its hash. -/
theorem mem_publicKeys_iff
    {roster : Roster} {key : PublicKey} :
    key ∈ roster.publicKeys ↔
      ∃ entity, roster.get? (keyHash key) = some entity ∧ entity.publicKey = key := by
  rw [publicKeys, List.mem_map]
  constructor
  · rintro ⟨entity, hentity, rfl⟩
    obtain ⟨⟨name, entity⟩, hentry, rfl⟩ := List.mem_map.mp hentity
    have hget : roster.get? name = some entity := KeyTable.mem_entries_iff.mp hentry
    exact ⟨entity, keyHash_eq_of_get? hget ▸ hget, rfl⟩
  · rintro ⟨entity, hget, hkey⟩
    exact ⟨entity, List.mem_map.mpr ⟨_, KeyTable.mem_entries_iff.mpr hget, rfl⟩, hkey⟩

/-- Searching the entities for one with a given name is looking the name up. -/
theorem find?_values (name : KeyHash) :
    roster.values.find? (fun entity => entity.name = name) = roster.get? name := by
  have hfind : roster.entries.find? (fun entry => entry.2.name = name) =
      roster.entries.find? (fun entry => entry.1 = name) := by
    apply List.find?_congr
    intro entry hentry
    rw [roster.filed entry hentry]
  rw [KeyTable.values, KeyTable.get?, List.find?_map, ← hfind]
  rfl

/-- Searching the keys for one with a given hash is looking the hash up. -/
theorem find?_publicKeys (name : KeyHash) :
    roster.publicKeys.find? (fun key => keyHash key = name) =
      (roster.get? name).map Entity.publicKey := by
  rw [publicKeys, List.find?_map, ← find?_values]
  rfl

/-- Every name of a roster has a position, at which the key with that hash stands. -/
theorem exists_position?_eq_some
    {name : KeyHash}
    (h : roster.contains name = true) :
    ∃ id key, roster.position? name = some id ∧ roster.publicKeys[id]? = some key ∧
      keyHash key = name := by
  have hmem : name ∈ roster.keys := KeyTable.contains_iff_mem_keys.mp h
  have hsome : (roster.position? name).isSome := by
    rw [position?, List.findIdx?_isSome]
    simpa using hmem
  obtain ⟨id, hid⟩ := Option.isSome_iff_exists.mp hsome
  obtain ⟨hlt, hkey, -⟩ := List.findIdx?_eq_some_iff_getElem.mp hid
  have hget : (roster.publicKeys[id]?).map keyHash = some name := by
    rw [map_keyHash_getElem?_publicKeys, List.getElem?_eq_getElem hlt, of_decide_eq_true hkey]
  obtain ⟨key, hpublic, hname⟩ := Option.map_eq_some_iff.mp hget
  exact ⟨id, key, hid, hpublic, hname⟩

/-! ## What is known from the keys alone -/

theorem size_eq_of_publicKeys_eq
    {roster roster' : Roster}
    (h : roster.publicKeys = roster'.publicKeys) : roster.size = roster'.size := by
  rw [← length_publicKeys, h, length_publicKeys]

theorem position?_eq_of_publicKeys_eq
    {roster roster' : Roster}
    (h : roster.publicKeys = roster'.publicKeys) : roster.position? = roster'.position? := by
  funext name
  rw [position?, position?, ← map_keyHash_publicKeys, h, map_keyHash_publicKeys]

/-! ## Adding entities -/

theorem ext_get?
    {roster roster' : Roster}
    (h : ∀ name, roster.get? name = roster'.get? name) : roster = roster' := by
  obtain ⟨table, filed⟩ := roster
  obtain ⟨table', filed'⟩ := roster'
  have htables : table = table' := KeyTable.ext_get? h
  subst htables
  rfl

/-- What is found after an entity is added. -/
theorem add?_eq_some_iff
    {roster roster' : Roster} {entity : Entity} :
    roster.add? entity = some roster' ↔
      roster.get? entity.name = none ∧
        ∀ name, roster'.get? name = if name = entity.name then some entity else roster.get? name := by
  have hcontains : roster.contains entity.name = true ↔ roster.get? entity.name ≠ none := by
    rw [KeyTable.contains, Option.isSome_iff_ne_none]
  rw [add?]
  by_cases h : roster.get? entity.name = none
  · rw [if_neg fun hmem => hcontains.mp hmem h]
    constructor
    · intro hadd
      refine ⟨h, fun name => ?_⟩
      cases hadd
      exact KeyTable.get?_insert _ _ _ _
    · rintro ⟨-, hget⟩
      refine congrArg some (ext_get? fun name => ?_)
      rw [hget]
      exact KeyTable.get?_insert _ _ _ _
  · rw [if_pos (hcontains.mpr h)]
    simp [h]

theorem map_name_values : roster.values.map Entity.name = roster.keys := by
  rw [KeyTable.values, KeyTable.keys, List.map_map]
  exact List.map_congr_left roster.filed

theorem name_mem_keys
    {roster : Roster} {entity : Entity}
    (h : entity ∈ roster.values) : entity.name ∈ roster.keys := by
  rw [← map_name_values]
  exact List.mem_map_of_mem h

/-- Entities with different names that are not listed yet can be added one by one. -/
theorem exists_foldlM_add?
    {entities : List Entity}
    (hnodup : (entities.map Entity.name).Nodup) (roster : Roster)
    (hnew : ∀ entity ∈ entities, roster.get? entity.name = none) :
    ∃ roster', entities.foldlM Roster.add? roster = some roster' ∧
      ∀ name, roster'.get? name =
        (entities.find? fun entity => entity.name = name).or (roster.get? name) := by
  induction entities generalizing roster with
  | nil => exact ⟨roster, rfl, fun _ => rfl⟩
  | cons entity entities ih =>
      obtain ⟨hother, hnodup⟩ := List.nodup_cons.mp hnodup
      obtain ⟨hfirst, hnew⟩ := List.forall_mem_cons.mp hnew
      have hcontains : roster.contains entity.name = false := by
        rw [KeyTable.contains, hfirst, Option.isSome_none]
      obtain ⟨next, hadd⟩ : ∃ next, roster.add? entity = some next := by
        rw [add?, hcontains]
        exact ⟨_, rfl⟩
      obtain ⟨-, hget⟩ := add?_eq_some_iff.mp hadd
      have hnext : ∀ other ∈ entities, next.get? other.name = none := by
        intro other hmem
        have hne : other.name ≠ entity.name := by
          intro heq
          exact hother (heq ▸ List.mem_map_of_mem hmem)
        rw [hget, if_neg hne, hnew other hmem]
      obtain ⟨roster', hrun, hget'⟩ := ih hnodup next hnext
      refine ⟨roster', by rw [List.foldlM_cons, hadd]; exact hrun, fun name => ?_⟩
      rw [hget', hget, List.find?_cons]
      by_cases hname : entity.name = name
      · subst hname
        have hnone : (entities.find? fun other => other.name = entity.name) = none := by
          rw [List.find?_eq_none]
          intro other hmem heq
          exact hother (of_decide_eq_true heq ▸ List.mem_map_of_mem hmem)
        simp [hnone]
      · simp [hname, Ne.symm hname]

/-- A roster is made by adding its entities one by one. -/
theorem foldlM_add?_values : roster.values.foldlM Roster.add? Roster.empty = some roster := by
  obtain ⟨roster', hrun, hget⟩ :=
    exists_foldlM_add? (roster.map_name_values ▸ roster.nodup_keys) Roster.empty fun _ _ => rfl
  have hsame : roster' = roster := by
    apply ext_get?
    intro name
    rw [hget, find?_values]
    exact Option.or_none
  rw [hrun, hsame]

end Roster

end WitnessedLog
