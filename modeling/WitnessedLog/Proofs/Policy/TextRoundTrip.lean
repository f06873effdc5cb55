import WitnessedLog.Proofs.Policy.CompilerCorrectness
import WitnessedLog.Proofs.Policy.FreshNames
import WitnessedLog.Proofs.Policy.WrittenRules

/-!
# Written policies are read back

The text of a policy lists its logs, its witnesses, its groups and its quorum.  When the logs and
witnesses are read the draft has the rosters of the policy and the witnesses have their names, so
the groups can be read, and with them the rule that was written.  Every policy can be written whose
addresses are words.
-/

namespace WitnessedLog

namespace Policy

/-- A policy that can be written: its addresses are words, and its thresholds fit 64 bits. -/
structure Writable (policy : Policy) : Prop where
  logs : ∀ log ∈ policy.logs.values, ∀ url ∈ log.url, isWord url = true
  witnesses : ∀ witness ∈ policy.witnesses.values, ∀ url ∈ witness.url, isWord url = true
  thresholds : ∀ threshold ∈ policy.quorum.thresholds, threshold < UInt64.size

namespace Reader

variable {names : NameChoice} {reader : Reader}

theorem follow_logs
    {entities : List Entity} {logs : Roster}
    (h : entities.foldlM Roster.add? reader.draft.logs = some logs) :
    (entities.map logDirective).foldlM follow reader =
      .ok { reader with draft := { reader.draft with logs } } := by
  induction entities generalizing reader with
  | nil =>
      cases h
      rfl
  | cons entity entities ih =>
      rw [List.foldlM_cons, Option.bind_eq_bind, Option.bind_eq_some_iff] at h
      obtain ⟨first, hfirst, hrest⟩ := h
      have hfollow := follow_eq_ok_iff.mpr ⟨_, Directive.ofWords?_logDirective entity, .log hfirst⟩
      rw [List.map_cons, List.foldlM_cons, hfollow]
      exact ih hrest

theorem exists_follow_witnesses
    {entities : List Entity} {witnesses : Roster}
    (h : entities.foldlM Roster.add? reader.draft.witnesses = some witnesses)
    (hnodup : (entities.map fun entity => names.witness entity.name).Nodup)
    (hunused : ∀ entity ∈ entities, reader.find? (names.witness entity.name) = none) :
    ∃ reader', (entities.map (witnessDirective names)).foldlM follow reader = .ok reader' ∧
      reader'.draft = { reader.draft with witnesses } ∧
      (∀ entity ∈ entities,
        reader'.find? (names.witness entity.name) = some (.witness entity.name)) ∧
      ∀ name ∉ entities.map fun entity => names.witness entity.name,
        reader'.find? name = reader.find? name := by
  induction entities generalizing reader with
  | nil =>
      cases h
      exact ⟨reader, rfl, rfl, by simp, fun _ _ => rfl⟩
  | cons entity entities ih =>
      rw [List.foldlM_cons, Option.bind_eq_bind, Option.bind_eq_some_iff] at h
      obtain ⟨first, hfirst, hrest⟩ := h
      obtain ⟨hother, hnodup⟩ := List.nodup_cons.mp hnodup
      obtain ⟨hnew, hunused⟩ := List.forall_mem_cons.mp hunused
      let next := Reader.assign { reader with draft := { reader.draft with witnesses := first } }
        (names.witness entity.name) (.witness entity.name)
      have hfollow : reader.follow (witnessDirective names entity) = .ok next :=
        follow_eq_ok_iff.mpr ⟨_, Directive.ofWords?_witnessDirective names entity,
          .witness hnew hfirst⟩
      have hnext : ∀ name, next.find? name =
          if names.witness entity.name = name then some (.witness entity.name)
            else reader.find? name := find?_assign _ _ _
      have hunused' : ∀ other ∈ entities, next.find? (names.witness other.name) = none := by
        intro other hmem
        have hne : names.witness entity.name ≠ names.witness other.name := by
          intro heq
          exact hother (List.mem_map.mpr ⟨other, hmem, heq.symm⟩)
        rw [hnext, if_neg hne, hunused other hmem]
      obtain ⟨reader', hrun, hdraft, hfound, hkept⟩ := ih hrest hnodup hunused'
      refine ⟨reader', by rw [List.map_cons, List.foldlM_cons, hfollow]; exact hrun, hdraft, ?_, ?_⟩
      · refine List.forall_mem_cons.mpr ⟨?_, hfound⟩
        rw [hkept _ hother, hnext, if_pos rfl]
      · intro name hname
        rw [List.map_cons, List.mem_cons, not_or] at hname
        rw [hkept name hname.2, hnext, if_neg (Ne.symm hname.1)]

theorem find?_start_of_ne
    {name : String}
    (h : name ≠ "none") : start.find? name = none := by
  simp [start, find?, h.symm]

end Reader

section

variable {policy : Policy} {names : NameChoice}

theorem mem_keys_of_mem_names
    {witness : KeyHash}
    (h : witness ∈ policy.quorum.names) : witness ∈ policy.witnesses.keys :=
  KeyTable.contains_iff_mem_keys.mp (policy.closed witness h)

theorem isWord_of_mem_toList
    {url : Option String}
    (h : ∀ text ∈ url, isWord text = true) : ∀ text ∈ url.toList, isWord text = true :=
  fun text htext => h text (Option.mem_toList.mp htext)

theorem areWords_directives
    (hfresh : names.FreshFor policy) (hwritable : policy.Writable) :
    AreWords (policy.directives names) := by
  have hquorum := areWords_define
    (fun _ hname => hfresh.isWord _ (NameChoice.witness_mem_used (mem_keys_of_mem_names hname)))
    (fun _ hnumber => hfresh.isWord _ (NameChoice.group_mem_used hnumber)) (Nat.le_refl _)
  obtain ⟨hname, hdefinitions⟩ := areWords_cons.mp hquorum
  have hlogs : AreWords (policy.logs.values.map logDirective) := by
    refine List.forall_mem_map.mpr fun log hlog => ?_
    simp only [logDirective, List.forall_mem_cons]
    exact ⟨by decide, isWord_toHex _, isWord_of_mem_toList (hwritable.logs log hlog)⟩
  have hwitnesses : AreWords (policy.witnesses.values.map (witnessDirective names)) := by
    refine List.forall_mem_map.mpr fun witness hwitness => ?_
    have hname := hfresh.isWord _ (NameChoice.witness_mem_used (Roster.name_mem_keys hwitness))
    simp only [witnessDirective, List.forall_mem_cons]
    exact ⟨by decide, hname, isWord_toHex _,
      isWord_of_mem_toList (hwritable.witnesses witness hwitness)⟩
  have hlast : AreWords [["quorum", (define names policy.quorum 0).names]] := by
    refine List.forall_mem_singleton.mpr (List.forall_mem_cons.mpr ⟨by decide, hname⟩)
  rw [directives, areWords_append, areWords_append, areWords_append]
  exact ⟨⟨⟨hlogs, hwitnesses⟩, hdefinitions⟩, hlast⟩

/-- When the logs and the witnesses of a policy are read, the reader is ready for its groups. -/
theorem exists_follow_entities
    (hfresh : names.FreshFor policy) :
    ∃ reader : Reader, (policy.logs.values.map logDirective ++
        policy.witnesses.values.map (witnessDirective names)).foldlM Reader.follow Reader.start =
          .ok reader ∧
      reader.Ready names (define names policy.quorum 0).next
        ⟨policy.logs, policy.witnesses, none⟩ 0 := by
  let afterLogs : Reader :=
    { Reader.start with draft := { Reader.start.draft with logs := policy.logs } }
  have hlogs : (policy.logs.values.map logDirective).foldlM Reader.follow Reader.start =
      .ok afterLogs := Reader.follow_logs policy.logs.foldlM_add?_values
  have hadd : policy.witnesses.values.foldlM Roster.add? afterLogs.draft.witnesses =
      some policy.witnesses := policy.witnesses.foldlM_add?_values
  have hkeys : policy.witnesses.values.map (fun entity => names.witness entity.name) =
      policy.witnesses.keys.map names.witness := by
    rw [← Roster.map_name_values, List.map_map]
    rfl
  have hunused : ∀ witness ∈ policy.witnesses.values,
      afterLogs.find? (names.witness witness.name) = none := by
    intro witness hwitness
    exact Reader.find?_start_of_ne (hfresh.ne_none
      (NameChoice.witness_mem_used (Roster.name_mem_keys hwitness)))
  obtain ⟨reader, hrun, hdraft, hfound, hkept⟩ :=
    Reader.exists_follow_witnesses hadd (hkeys ▸ hfresh.nodup_witnesses) hunused
  rw [hkeys] at hkept
  refine ⟨reader, Reader.foldlM_follow_append hlogs hrun, hdraft, ?_, ?_, ?_⟩
  · intro name hname
    obtain ⟨witness, hwitness⟩ := Option.isSome_iff_exists.mp hname
    have hvalue : witness ∈ policy.witnesses.values :=
      List.mem_map_of_mem (KeyTable.mem_entries_iff.mpr hwitness)
    have hname : witness.name = name := Roster.keyHash_eq_of_get? hwitness
    exact hname ▸ hfound witness hvalue
  · refine hkept "none" ?_
    intro hmem
    exact hfresh.ne_none (List.mem_append_left _ hmem) rfl
  · intro number _ hnumber
    rw [hkept _ (hfresh.group_notMem_witnesses hnumber)]
    exact Reader.find?_start_of_ne (hfresh.ne_none (NameChoice.group_mem_used hnumber))

theorem exists_follow_directives
    (hfresh : names.FreshFor policy) (hwritable : policy.Writable) :
    ∃ reader, (policy.directives names).foldlM Reader.follow Reader.start = .ok reader ∧
      reader.draft = ⟨policy.logs, policy.witnesses, some policy.quorum⟩ := by
  obtain ⟨between, hentities, hbetween⟩ := exists_follow_entities hfresh
  obtain ⟨reader, hrun, hready, hname⟩ := Reader.exists_follow_define hfresh.group_injective
    policy.wellFormed policy.closed hwritable.thresholds hbetween (Nat.le_refl _)
  have hunset : reader.draft.quorum = none := by rw [hready.draft_eq]
  let final : Reader := { reader with draft := { reader.draft with quorum := some policy.quorum } }
  have hfollow : reader.follow ["quorum", (define names policy.quorum 0).names] = .ok final :=
    Reader.follow_eq_ok_iff.mpr ⟨_, rfl, .quorum hname hunset⟩
  refine ⟨final, Reader.foldlM_follow_append (Reader.foldlM_follow_append hentities hrun) ?_, ?_⟩
  · rw [List.foldlM_cons, hfollow]
    rfl
  · simp only [final, hready.draft_eq]

end

/-- What is written of a policy is read as the policy. -/
theorem ofText_toText
    {policy : Policy} {names : NameChoice}
    (hfresh : names.FreshFor policy) (hwritable : policy.Writable) :
    ofText (policy.toText names) = .ok policy := by
  obtain ⟨reader, hrun, hdraft⟩ := exists_follow_directives hfresh hwritable
  have htext : policy.toText names = textOf (policy.directives names) := rfl
  rw [htext, ofText_textOf (areWords_directives hfresh hwritable), hrun]
  exact Draft.finalize_eq_ok_iff.mpr hdraft

/-- Every policy whose addresses are words can be written, and whichever fresh names it is written
with, it is read back. -/
theorem text_expresses_policy
    {policy : Policy}
    (hwritable : policy.Writable) :
    (∀ names : NameChoice, names.FreshFor policy → ofText (policy.toText names) = .ok policy) ∧
      ∃ names : NameChoice, names.FreshFor policy :=
  ⟨fun _ hfresh => ofText_toText hfresh hwritable, .plain, NameChoice.fresh_plain.freshFor policy⟩

/-- A policy with addresses, a group within a group, a member that counts twice, and a group of no
members. -/
def sampleNested : Policy where
  logs := {
    entries := [7].map fun b => (keyHash (.replicate b), ⟨.replicate b, some "https://log.example"⟩)
    ascending := List.pairwise_singleton _ _
    filed := by simp [Entity.name] }
  witnesses := {
    entries := [(3, none), (1, some "https://witness.example")].map fun (b, url) =>
      (keyHash (.replicate b), ⟨.replicate b, url⟩)
    ascending := by decide +kernel
    filed := by simp [Entity.name] }
  quorum := .group 2 [
    .group 0 [],
    .group 3 [.witness (keyHash (.replicate 1)), .witness (keyHash (.replicate 3)),
      .witness (keyHash (.replicate 1))],
    .witness (keyHash (.replicate 3))]
  wellFormed := by simp [Quorum.ThresholdFits]
  closed := by decide +kernel

theorem writable_sampleNested : sampleNested.Writable where
  logs := by decide +kernel
  witnesses := by decide +kernel
  thresholds := by decide +kernel

theorem ofText_toText_sampleNested :
    sampleNested.Writable ∧ NameChoice.plain.FreshFor sampleNested ∧
      ofText (sampleNested.toText .plain) = .ok sampleNested := by
  have hfresh : NameChoice.plain.FreshFor sampleNested :=
    NameChoice.fresh_plain.freshFor sampleNested
  obtain ⟨hread, -⟩ := text_expresses_policy writable_sampleNested
  exact ⟨writable_sampleNested, hfresh, hread .plain hfresh⟩

end Policy

end WitnessedLog
