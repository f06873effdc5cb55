import WitnessedLog.Proofs.Policy.EmptyGroups
import WitnessedLog.Proofs.Policy.LineOrder

/-!
# Names stand for closed rules

While a policy is read, every name stands for a well-formed rule, and the witnesses of that rule
have been read before.  The quorum is chosen by name, so it is such a rule too.  What is sealed in
the end can only lack a quorum, and no text is refused for a witness that is unknown.
-/

namespace WitnessedLog

namespace Policy

/-- A rule that can be the quorum of a draft: it is well-formed and names only witnesses that are
trusted. -/
def Draft.Admits (draft : Draft) (rule : Quorum KeyHash) : Prop :=
  rule.WellFormed ∧ ∀ witness ∈ rule.names, draft.witnesses.contains witness = true

theorem Draft.admits_unconditional (draft : Draft) : draft.Admits Quorum.unconditional := by
  simp [Admits, Quorum.unconditional, Quorum.ThresholdFits]

/-- A draft with a quorum that it admits is sealed. -/
theorem Draft.failsOnly_finalize
    {draft : Draft}
    (h : ∀ rule, draft.quorum = some rule → draft.Admits rule) :
    FailsOnly (· = .noQuorum) draft.finalize := by
  rw [finalize]
  split
  · exact failsOnly_error rfl
  · rename_i quorum hquorum
    have hcheck : quorum.check draft.witnesses.contains = .ok () :=
      Quorum.check_eq_ok_iff.mpr (h quorum hquorum)
    split
    · rename_i e herror
      cases hcheck.symm.trans herror
    · exact failsOnly_ok _

namespace Reader

/-! ## One line -/

/-- Each name stands for a rule that the draft admits, and `none` for the rule that asks for
nobody. -/
structure Closed (reader : Reader) : Prop where
  names : ∀ name rule, reader.find? name = some rule → reader.draft.Admits rule
  quorum : ∀ rule, reader.draft.quorum = some rule → reader.draft.Admits rule
  reserved : reader.find? "none" = some Quorum.unconditional

variable {reader reader' : Reader} {directive : Directive}

theorem closed_start : start.Closed where
  names := by
    intro name rule hrule
    obtain ⟨binding, hbinding, rfl⟩ := Option.map_eq_some_iff.mp hrule
    rw [List.mem_singleton.mp (List.mem_of_find?_eq_some hbinding)]
    exact start.draft.admits_unconditional
  quorum := by
    intro rule hrule
    cases hrule
  reserved := rfl

theorem Closed.assign
    (h : reader.Closed) {name : String} (hunused : reader.find? name = none)
    {rule : Quorum KeyHash} (hrule : reader.draft.Admits rule) :
    (reader.assign name rule).Closed where
  names := by
    intro other found hfound
    rw [find?_assign] at hfound
    split at hfound
    · rwa [← Option.some.inj hfound]
    · exact h.names other found hfound
  quorum := h.quorum
  reserved := (find?_assign_of_unused hunused).2 _ _ h.reserved

/-- What is admitted stays so when witnesses are added. -/
theorem Closed.withWitnesses
    (h : reader.Closed) {witnesses : Roster}
    (hmore : ∀ name, reader.draft.witnesses.contains name = true →
      witnesses.contains name = true) :
    Closed { reader with draft := { reader.draft with witnesses } } := by
  have hadmits : ∀ rule, reader.draft.Admits rule →
      Draft.Admits { reader.draft with witnesses } rule := by
    intro rule hrule
    exact ⟨hrule.1, fun witness hwitness => hmore witness (hrule.2 witness hwitness)⟩
  exact ⟨fun name rule hrule => hadmits rule (h.names name rule hrule),
    fun rule hrule => hadmits rule (h.quorum rule hrule), h.reserved⟩

theorem contains_of_add?
    {roster roster' : Roster} {entity : Entity}
    (h : roster.add? entity = some roster') :
    roster'.contains entity.name = true ∧
      ∀ name, roster.contains name = true → roster'.contains name = true := by
  obtain ⟨hentity, hothers⟩ := get?_of_add? h
  simp only [KeyTable.contains, Option.isSome_iff_exists]
  refine ⟨⟨entity, hentity⟩, ?_⟩
  rintro name ⟨found, hfound⟩
  exact ⟨found, hothers name found hfound⟩

/-- Following a line leaves all names standing for rules that the draft admits. -/
theorem Step.closed
    (hstep : reader.Step directive reader') (h : reader.Closed) : reader'.Closed := by
  cases hstep with
  | blank => exact h
  | log hlogs => exact ⟨h.names, h.quorum, h.reserved⟩
  | witness hunused hwitnesses =>
      obtain ⟨hentity, hothers⟩ := contains_of_add? hwitnesses
      refine (h.withWitnesses hothers).assign hunused ⟨trivial, ?_⟩
      intro witness hwitness
      rwa [List.mem_singleton.mp hwitness]
  | group hunused hmembers hthreshold =>
      rename_i rules
      have hadmits : ∀ rule ∈ rules, reader.draft.Admits rule :=
        forall_mem_of_forall₂ hmembers fun member _ rule => h.names member rule
      refine h.assign hunused ⟨?_, ?_⟩
      · rw [hmembers.length_eq] at hthreshold
        rw [Quorum.wellFormed_group]
        exact ⟨Or.inr hthreshold, fun rule hrule => (hadmits rule hrule).1⟩
      · intro witness hwitness
        rw [Quorum.names_group] at hwitness
        obtain ⟨rule, hrule, hname⟩ := List.mem_flatMap.mp hwitness
        exact (hadmits rule hrule).2 witness hname
  | quorum hrule hunset =>
      refine ⟨h.names, ?_, h.reserved⟩
      rintro _ ⟨⟩
      exact h.names _ _ hrule

theorem closed_of_run
    {lines : List (List Char)}
    (h : lines.foldlM readLine start = .ok reader) : reader.Closed := by
  refine foldlM_keeps (motive := Closed) ?_ h closed_start
  intro line _ before after hline
  obtain ⟨directive, -, hstep⟩ := readLine_eq_ok_iff.mp hline
  exact hstep.closed

end Reader

/-! ## How a line is refused -/

/-- An error does not blame a witness that is unknown. -/
def BlamesNoWitness : PolicyError → Prop
  | .unknownWitness _ => False
  | _ => True

theorem failsOnly_readKey (text : String) : FailsOnly BlamesNoWitness (readKey text) := by
  rw [readKey]
  split
  · exact failsOnly_error trivial
  · split
    · exact failsOnly_ok _
    · exact failsOnly_error trivial

theorem failsOnly_readThreshold (text : String) (size : Nat) :
    FailsOnly BlamesNoWitness (readThreshold text size) := by
  fun_cases readThreshold text size with
  | case1 => exact failsOnly_ok 1
  | case2 => exact failsOnly_ok size
  | case3 => exact failsOnly_ok _
  | case4 => exact failsOnly_error trivial

theorem failsOnly_ofThreshold (threshold : Nat) (members : List (Quorum KeyHash)) :
    FailsOnly BlamesNoWitness (Quorum.ofThreshold threshold members) := by
  rw [Quorum.ofThreshold]
  split
  · exact failsOnly_ok _
  · exact failsOnly_error trivial

namespace Draft

variable (draft : Draft)

theorem failsOnly_addLog (log : Entity) : FailsOnly BlamesNoWitness (draft.addLog log) := by
  rw [addLog]
  split
  · exact failsOnly_ok _
  · exact failsOnly_error trivial

theorem failsOnly_addWitness (witness : Entity) :
    FailsOnly BlamesNoWitness (draft.addWitness witness) := by
  rw [addWitness]
  split
  · exact failsOnly_ok _
  · exact failsOnly_error trivial

theorem failsOnly_setQuorum (rule : Quorum KeyHash) :
    FailsOnly BlamesNoWitness (draft.setQuorum rule) := by
  rw [setQuorum]
  split
  · exact failsOnly_error trivial
  · exact failsOnly_ok _

end Draft

namespace Reader

variable (reader : Reader)

theorem failsOnly_resolve (name : String) : FailsOnly BlamesNoWitness (reader.resolve name) := by
  rw [resolve]
  split
  · exact failsOnly_ok _
  · exact failsOnly_error trivial

theorem failsOnly_requireUnused (name : String) :
    FailsOnly BlamesNoWitness (reader.requireUnused name) := by
  rw [requireUnused]
  split
  · exact failsOnly_error trivial
  · exact failsOnly_ok _

theorem failsOnly_addLog (key : String) (url : Option String) :
    FailsOnly BlamesNoWitness (reader.addLog key url) :=
  (failsOnly_readKey key).bind fun _ => (reader.draft.failsOnly_addLog _).bind fun _ =>
    failsOnly_ok _

theorem failsOnly_addWitness (name key : String) (url : Option String) :
    FailsOnly BlamesNoWitness (reader.addWitness name key url) :=
  (reader.failsOnly_requireUnused name).bind fun _ => (failsOnly_readKey key).bind fun _ =>
    (reader.draft.failsOnly_addWitness _).bind fun _ => failsOnly_ok _

theorem failsOnly_addGroup (name threshold : String) (members : List String) :
    FailsOnly BlamesNoWitness (reader.addGroup name threshold members) :=
  (reader.failsOnly_requireUnused name).bind fun _ =>
    (failsOnly_readThreshold threshold _).bind fun _ =>
      (failsOnly_mapM reader.failsOnly_resolve members).bind fun rules =>
        (failsOnly_ofThreshold _ rules).bind fun _ => failsOnly_ok _

theorem failsOnly_setQuorum (name : String) :
    FailsOnly BlamesNoWitness (reader.setQuorum name) :=
  (reader.failsOnly_resolve name).bind fun rule => (reader.draft.failsOnly_setQuorum rule).bind
    fun _ => failsOnly_ok _

/-- No line is refused for a witness that is unknown. -/
theorem failsOnly_follow (words : List String) :
    FailsOnly BlamesNoWitness (reader.follow words) := by
  fun_cases reader.follow words with
  | case1 => exact failsOnly_ok reader
  | case2 key => exact reader.failsOnly_addLog key none
  | case3 key url => exact reader.failsOnly_addLog key (some url)
  | case4 => exact failsOnly_error trivial
  | case5 name key => exact reader.failsOnly_addWitness name key none
  | case6 name key url => exact reader.failsOnly_addWitness name key (some url)
  | case7 => exact failsOnly_error trivial
  | case8 name threshold member members =>
      exact reader.failsOnly_addGroup name threshold (member :: members)
  | case9 => exact failsOnly_error trivial
  | case10 name => exact reader.failsOnly_setQuorum name
  | case11 => exact failsOnly_error trivial
  | case12 => exact failsOnly_error trivial

end Reader

/-! ## All lines -/

theorem failsOnly_ofText (text : String) : FailsOnly BlamesNoWitness (ofText text) := by
  intro e h
  rw [ofText] at h
  cases hrun : (Text.lines text.toList).foldlM Reader.readLine Reader.start with
  | error cause =>
      rw [hrun] at h
      cases h
      exact failsOnly_foldlM (fun reader line => reader.failsOnly_follow _) _ _ _ hrun
  | ok reader =>
      rw [hrun] at h
      have hclosed : reader.Closed := Reader.closed_of_run hrun
      cases (Draft.failsOnly_finalize hclosed.quorum e h : e = .noQuorum)
      trivial

/-- After all lines up to any point of a text, each name stands for a well-formed rule over
witnesses that are trusted by then, and `none` for the rule that asks for nobody.  So a text is
never refused for a witness that is unknown, and what all its lines say can be sealed unless no
quorum is chosen.  In the policy that is read each log and witness is filed under the hash of its
own key, and all witnesses that the quorum names are there. -/
theorem ofText_keeps_names_closed (text : String) :
    let lines := Text.lines text.toList
    (∀ front reader, front <+: lines →
        front.foldlM Reader.readLine Reader.start = .ok reader →
          reader.find? "none" = some Quorum.unconditional ∧
            ∀ name rule, reader.find? name = some rule → reader.draft.Admits rule) ∧
      (∀ witness, ofText text ≠ .error (.unknownWitness witness)) ∧
      (∀ reader e, lines.foldlM Reader.readLine Reader.start = .ok reader →
        reader.draft.finalize = .error e → e = .noQuorum) ∧
      ∀ policy, ofText text = .ok policy →
        (∀ name log, policy.logs.get? name = some log → keyHash log.publicKey = name) ∧
          (∀ name witness, policy.witnesses.get? name = some witness →
            keyHash witness.publicKey = name) ∧
          ∀ name ∈ policy.quorum.names, ∃ witness, policy.witnesses.get? name = some witness := by
  intro lines
  refine ⟨?_, ?_, ?_, ?_⟩
  · intro front reader _ hrun
    have hclosed : reader.Closed := Reader.closed_of_run hrun
    exact ⟨hclosed.reserved, hclosed.names⟩
  · intro witness hrefused
    exact failsOnly_ofText text _ hrefused
  · intro reader e hrun
    exact Draft.failsOnly_finalize (Reader.closed_of_run hrun).quorum e
  · intro policy _
    refine ⟨fun _ _ => Roster.keyHash_eq_of_get?, fun _ _ => Roster.keyHash_eq_of_get?, ?_⟩
    intro name hname
    exact Option.isSome_iff_exists.mp (policy.closed name hname)

/-- A witness, and a group of it and of `none`. -/
def sampleWithNone : List (List String) := [
  ["witness", "X", sampleKey 'a'],
  ["group", "anyone", "any", "none", "X"],
  ["quorum", "anyone"]]

/-- All three lines are followed, and the policy is sealed with the group of the second one. -/
theorem ofText_sampleWithNone_keeps_names_closed :
    let lines := Text.lines (textOf sampleWithNone).toList
    ∃ reader policy, lines.foldlM Reader.readLine Reader.start = .ok reader ∧
      ofText (textOf sampleWithNone) = .ok policy ∧
        reader.find? "none" = some Quorum.unconditional ∧
        (∀ name rule, reader.find? name = some rule → reader.draft.Admits rule) ∧
        ∀ name ∈ policy.quorum.names, ∃ witness, policy.witnesses.get? name = some witness := by
  intro lines
  have hwords : AreWords sampleWithNone := by
    unfold AreWords
    decide +kernel
  have hread : (ofText (textOf sampleWithNone)).toOption.isSome := by
    rw [ofText_textOf hwords]
    decide +kernel
  obtain ⟨policy, hpolicy⟩ := Option.isSome_iff_exists.mp hread
  have hpolicy : ofText (textOf sampleWithNone) = .ok policy := toOption_eq_some_iff.mp hpolicy
  obtain ⟨reader, hrun, -⟩ := ofText_eq_ok_iff.mp hpolicy
  obtain ⟨hnames, -, -, hsealed⟩ := ofText_keeps_names_closed (textOf sampleWithNone)
  obtain ⟨hnone, hadmits⟩ := hnames lines reader List.prefix_rfl hrun
  obtain ⟨-, -, hwitnesses⟩ := hsealed policy hpolicy
  exact ⟨reader, policy, hrun, hpolicy, hnone, hadmits, hwitnesses⟩

end Policy

end WitnessedLog
