import WitnessedLog.Policy.Compile
import WitnessedLog.Proofs.Policy.Directives
import WitnessedLog.Proofs.Policy.RosterKeys
import WitnessedLog.Proofs.Policy.WrittenLines

/-!
# The order of lines

Names are defined before they are used and never defined again, so what has been read only grows,
and every line that was followed stays true.  The end of a reading is therefore the least state in
which all lines are true.  Which state that is does not depend on the order of the lines: two texts
with the same lines describe the same policy if both can be read.
-/

namespace WitnessedLog

namespace Policy

namespace Reader

/-- What one reader has learned, another one has learned too. -/
structure Within (reader other : Reader) : Prop where
  logs : ∀ name entity, reader.draft.logs.get? name = some entity →
    other.draft.logs.get? name = some entity
  witnesses : ∀ name entity, reader.draft.witnesses.get? name = some entity →
    other.draft.witnesses.get? name = some entity
  quorum : ∀ rule, reader.draft.quorum = some rule → other.draft.quorum = some rule
  names : ∀ name rule, reader.find? name = some rule → other.find? name = some rule

/-- What a line says is true of a reader. -/
def Holds (reader : Reader) : Directive → Prop
  | .blank => True
  | .log entity => reader.draft.logs.get? entity.name = some entity
  | .witness name entity =>
    reader.draft.witnesses.get? entity.name = some entity ∧
      reader.find? name = some (.witness entity.name)
  | .group name threshold members =>
    ∃ rules, List.Forall₂ (fun member rule => reader.find? member = some rule) members rules ∧
      reader.find? name = some (.group threshold rules)
  | .quorum name => ∃ rule, reader.find? name = some rule ∧ reader.draft.quorum = some rule

variable {reader reader' other : Reader} {directive : Directive}

theorem Within.refl (reader : Reader) : reader.Within reader where
  logs _ _ := id
  witnesses _ _ := id
  quorum _ := id
  names _ _ := id

theorem Within.trans
    (h : reader.Within reader') (h' : reader'.Within other) : reader.Within other where
  logs name entity hentity := h'.logs name entity (h.logs name entity hentity)
  witnesses name entity hentity := h'.witnesses name entity (h.witnesses name entity hentity)
  quorum rule hrule := h'.quorum rule (h.quorum rule hrule)
  names name rule hrule := h'.names name rule (h.names name rule hrule)

/-- Readers that have learned the same have the same draft. -/
theorem Within.draft_eq
    (h : reader.Within other) (h' : other.Within reader) : reader.draft = other.draft := by
  have hlogs : reader.draft.logs = other.draft.logs :=
    Roster.ext_get? fun name => Option.ext fun entity => ⟨h.logs name entity, h'.logs name entity⟩
  have hwitnesses : reader.draft.witnesses = other.draft.witnesses :=
    Roster.ext_get? fun name => Option.ext fun entity =>
      ⟨h.witnesses name entity, h'.witnesses name entity⟩
  have hquorum : reader.draft.quorum = other.draft.quorum :=
    Option.ext fun rule => ⟨h.quorum rule, h'.quorum rule⟩
  calc
    reader.draft = ⟨reader.draft.logs, reader.draft.witnesses, reader.draft.quorum⟩ := rfl
    _ = other.draft := by rw [hlogs, hwitnesses, hquorum]

theorem Holds.within
    (h : reader.Holds directive) (hwithin : reader.Within other) : other.Holds directive := by
  cases directive with
  | blank => trivial
  | log entity => exact hwithin.logs _ _ h
  | witness name entity => exact ⟨hwithin.witnesses _ _ h.1, hwithin.names _ _ h.2⟩
  | group name threshold members =>
      obtain ⟨rules, hrules, hname⟩ := h
      exact ⟨rules, hrules.imp fun _ _ => hwithin.names _ _, hwithin.names _ _ hname⟩
  | quorum name =>
      obtain ⟨rule, hname, hquorum⟩ := h
      exact ⟨rule, hwithin.names _ _ hname, hwithin.quorum _ hquorum⟩

/-! ## One line -/

theorem get?_of_add?
    {roster roster' : Roster} {entity : Entity}
    (h : roster.add? entity = some roster') :
    roster'.get? entity.name = some entity ∧
      ∀ name found, roster.get? name = some found → roster'.get? name = some found := by
  obtain ⟨hnew, hget⟩ := Roster.add?_eq_some_iff.mp h
  refine ⟨by rw [hget, if_pos rfl], ?_⟩
  intro name found hfound
  have hne : name ≠ entity.name := by
    rintro rfl
    rw [hnew] at hfound
    cases hfound
  rw [hget, if_neg hne, hfound]

theorem find?_assign_of_unused
    {name : String} {rule : Quorum KeyHash}
    (hunused : reader.find? name = none) :
    (reader.assign name rule).find? name = some rule ∧
      ∀ other found, reader.find? other = some found →
        (reader.assign name rule).find? other = some found := by
  refine ⟨by rw [find?_assign, if_pos rfl], ?_⟩
  intro other found hfound
  have hne : name ≠ other := by
    rintro rfl
    rw [hunused] at hfound
    cases hfound
  rw [find?_assign, if_neg hne, hfound]

/-- Nothing that was learned is lost. -/
theorem Step.within
    (h : reader.Step directive reader') : reader.Within reader' := by
  cases h with
  | blank => exact .refl reader
  | log hlogs => exact { Within.refl reader with logs := (get?_of_add? hlogs).2 }
  | witness hunused hwitnesses =>
      exact { Within.refl reader with
        witnesses := (get?_of_add? hwitnesses).2
        names := (find?_assign_of_unused hunused).2 }
  | group hunused hmembers hthreshold =>
      exact { Within.refl reader with names := (find?_assign_of_unused hunused).2 }
  | quorum hrule hunset =>
      refine { Within.refl reader with quorum := ?_ }
      intro rule hset
      rw [hunset] at hset
      cases hset

/-- What was followed is true. -/
theorem Step.holds
    (h : reader.Step directive reader') : reader'.Holds directive := by
  have hwithin := h.within
  cases h with
  | blank => trivial
  | log hlogs => exact (get?_of_add? hlogs).1
  | witness hunused hwitnesses =>
      exact ⟨(get?_of_add? hwitnesses).1, (find?_assign_of_unused hunused).1⟩
  | group hunused hmembers hthreshold =>
      exact ⟨_, hmembers.imp fun _ _ => hwithin.names _ _, (find?_assign_of_unused hunused).1⟩
  | quorum hrule hunset => exact ⟨_, hrule, rfl⟩

theorem get?_of_add?_of_get?
    {roster roster' larger : Roster} {entity : Entity}
    (h : roster.add? entity = some roster')
    (hlarger : ∀ name found, roster.get? name = some found → larger.get? name = some found)
    (hentity : larger.get? entity.name = some entity) :
    ∀ name found, roster'.get? name = some found → larger.get? name = some found := by
  obtain ⟨-, hget⟩ := Roster.add?_eq_some_iff.mp h
  intro name found hfound
  rw [hget] at hfound
  split at hfound
  · rename_i hname
    rwa [hname, ← hfound]
  · exact hlarger name found hfound

theorem find?_assign_of_find?
    {name : String} {rule : Quorum KeyHash}
    (hother : ∀ name found, reader.find? name = some found → other.find? name = some found)
    (hrule : other.find? name = some rule) :
    ∀ name' found, (reader.assign name rule).find? name' = some found →
      other.find? name' = some found := by
  intro name' found hfound
  rw [find?_assign] at hfound
  split at hfound
  · rename_i hname
    rwa [← hname, ← hfound]
  · exact hother name' found hfound

/-- A line teaches nothing beyond what it says. -/
theorem Step.within_of_holds
    (h : reader.Step directive reader') (hwithin : reader.Within other)
    (hholds : other.Holds directive) : reader'.Within other := by
  cases h with
  | blank => exact hwithin
  | log hlogs =>
      exact { hwithin with logs := get?_of_add?_of_get? hlogs hwithin.logs hholds }
  | witness hunused hwitnesses =>
      exact { hwithin with
        witnesses := get?_of_add?_of_get? hwitnesses hwithin.witnesses hholds.1
        names := find?_assign_of_find? hwithin.names hholds.2 }
  | group hunused hmembers hthreshold =>
      rename_i rules
      obtain ⟨rules', hmembers', hname⟩ := hholds
      have hrules : rules = rules' := by
        refine List.right_unique_forall₂' ?_ (hmembers.imp fun _ _ => hwithin.names _ _) hmembers'
        intro member rule rule' hrule hrule'
        exact Option.some.inj (hrule.symm.trans hrule')
      subst hrules
      exact { hwithin with names := find?_assign_of_find? hwithin.names hname }
  | quorum hrule hunset =>
      obtain ⟨rule', hrule', hquorum⟩ := hholds
      cases (hwithin.names _ _ hrule).symm.trans hrule'
      refine { hwithin with quorum := ?_ }
      rintro _ ⟨⟩
      exact hquorum

/-! ## All lines -/

variable {lines : List (List Char)}

theorem within_of_follow
    {directives : List (List String)}
    (h : directives.foldlM follow reader = .ok reader') : reader.Within reader' := by
  refine foldlM_keeps (motive := reader.Within) ?_ h (.refl reader)
  intro words _ before after hfollow hbefore
  obtain ⟨directive, -, hstep⟩ := follow_eq_ok_iff.mp hfollow
  exact hbefore.trans hstep.within

theorem within_of_run
    (h : lines.foldlM readLine reader = .ok reader') : reader.Within reader' := by
  have hfollow : (lines.map Reader.directive).foldlM follow reader = .ok reader' := by
    rw [List.foldlM_map]
    exact h
  exact within_of_follow hfollow

/-- After a reading every line is true. -/
theorem holds_of_run
    (h : lines.foldlM readLine reader = .ok reader') :
    ∀ line ∈ lines, ∃ directive, Directive.ofLine? line = some directive ∧
      reader'.Holds directive := by
  induction lines generalizing reader with
  | nil => simp
  | cons line lines ih =>
      rw [List.foldlM_cons, bind_eq_ok_iff] at h
      obtain ⟨next, hline, hlines⟩ := h
      obtain ⟨directive, hdirective, hstep⟩ := readLine_eq_ok_iff.mp hline
      have hholds : reader'.Holds directive := hstep.holds.within (within_of_run hlines)
      exact List.forall_mem_cons.mpr ⟨⟨directive, hdirective, hholds⟩, ih hlines⟩

/-- A reading ends in the least state in which every line is true. -/
theorem run_within
    (h : lines.foldlM readLine reader = .ok reader') (hwithin : reader.Within other)
    (hholds : ∀ line ∈ lines, ∃ directive, Directive.ofLine? line = some directive ∧
      other.Holds directive) :
    reader'.Within other := by
  refine foldlM_keeps (motive := fun after => after.Within other) ?_ h hwithin
  intro line hmem before after hline hbefore
  obtain ⟨directive, hdirective, hstep⟩ := readLine_eq_ok_iff.mp hline
  obtain ⟨directive', hdirective', hother⟩ := hholds line hmem
  cases hdirective.symm.trans hdirective'
  exact hstep.within_of_holds hbefore hother

end Reader

/-- Texts whose lines are the same but for their order describe the same policy if both can be
read, and so they compile alike. -/
theorem ofText_eq_of_lines_perm
    {text text' : String} {policy policy' : Policy}
    (hlines : (Text.lines text.toList).Perm (Text.lines text'.toList))
    (h : ofText text = .ok policy) (h' : ofText text' = .ok policy') :
    policy = policy' ∧ compileText text = compileText text' := by
  obtain ⟨reader, hrun, hdraft⟩ := ofText_eq_ok_iff.mp h
  obtain ⟨reader', hrun', hdraft'⟩ := ofText_eq_ok_iff.mp h'
  have hholds := Reader.holds_of_run hrun
  have hholds' := Reader.holds_of_run hrun'
  have hwithin : reader.Within reader' :=
    Reader.run_within hrun (Reader.within_of_run hrun') fun line hmem =>
      hholds' line (hlines.mem_iff.mp hmem)
  have hwithin' : reader'.Within reader :=
    Reader.run_within hrun' (Reader.within_of_run hrun) fun line hmem =>
      hholds line (hlines.mem_iff.mpr hmem)
  have hsame : policy = policy' := by
    apply Except.ok.inj (ε := PolicyError)
    rw [← Draft.finalize_eq_ok_iff.mpr hdraft, ← Draft.finalize_eq_ok_iff.mpr hdraft',
      hwithin.draft_eq hwithin']
  subst hsame
  exact ⟨rfl, by rw [compileText, compileText, h, h']⟩

/-- A key in hexadecimal that repeats one digit. -/
def sampleKey (digit : Char) : String :=
  String.ofList (List.replicate 64 digit)

/-- A log with an address, two witnesses, and a group within a group. -/
def sampleDirectives : List (List String) := [
  ["log", sampleKey '1', "https://log.example"],
  ["witness", "X", sampleKey 'a'],
  ["witness", "Y", sampleKey 'b'],
  ["group", "both", "all", "X", "Y"],
  ["group", "either", "1", "both", "Y"],
  ["quorum", "either"]]

/-- The same directives in another order that defines names before it uses them. -/
def sampleDirectivesReordered : List (List String) := [
  ["witness", "Y", sampleKey 'b'],
  ["witness", "X", sampleKey 'a'],
  ["group", "both", "all", "X", "Y"],
  ["group", "either", "1", "both", "Y"],
  ["quorum", "either"],
  ["log", sampleKey '1', "https://log.example"]]

theorem ofText_sampleDirectives_reordered :
    let text := textOf sampleDirectives
    let text' := textOf sampleDirectivesReordered
    (Text.lines text.toList).Perm (Text.lines text'.toList) ∧
      ∃ policy, ofText text = .ok policy ∧ ofText text' = .ok policy ∧
        compileText text = compileText text' := by
  intro text text'
  have hperm : sampleDirectives.Perm sampleDirectivesReordered := by decide +kernel
  have hwords : AreWords sampleDirectives := by
    unfold AreWords
    decide +kernel
  have hwords' : AreWords sampleDirectivesReordered := fun words hmem =>
    hwords words (hperm.mem_iff.mpr hmem)
  have hlines : (Text.lines text.toList).Perm (Text.lines text'.toList) := by
    rw [lines_textOf hwords, lines_textOf hwords']
    exact hperm.map _
  have hread : (ofText text).toOption.isSome := by
    rw [ofText_textOf hwords]
    decide +kernel
  have hread' : (ofText text').toOption.isSome := by
    rw [ofText_textOf hwords']
    decide +kernel
  obtain ⟨policy, hpolicy⟩ := Option.isSome_iff_exists.mp hread
  obtain ⟨policy', hpolicy'⟩ := Option.isSome_iff_exists.mp hread'
  have h : ofText text = .ok policy := toOption_eq_some_iff.mp hpolicy
  have h' : ofText text' = .ok policy' := toOption_eq_some_iff.mp hpolicy'
  obtain ⟨rfl, hcompile⟩ := ofText_eq_of_lines_perm hlines h h'
  exact ⟨hlines, policy, h, h', hcompile⟩

end Policy

end WitnessedLog
