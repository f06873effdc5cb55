import WitnessedLog.Proofs.Policy.WrittenLines
import WitnessedLog.Proofs.Quorum.Presence

/-!
# Where empty groups come from

The name `none` is taken before the first line and so is never defined again, and a line that names
a group lists at least one member.  An empty group therefore gets into a quorum only where the text
says `none`.
-/

namespace WitnessedLog

theorem forall_mem_of_forall₂
    {α β : Type} {R : α → β → Prop} {p : β → Prop} {as : List α} {bs : List β}
    (h : List.Forall₂ R as bs) (hp : ∀ a ∈ as, ∀ b, R a b → p b) :
    ∀ b ∈ bs, p b := by
  induction h with
  | nil => simp
  | cons hfirst hrest ih =>
      obtain ⟨hp, hps⟩ := List.forall_mem_cons.mp hp
      exact List.forall_mem_cons.mpr ⟨hp _ hfirst, ih hps⟩

namespace Policy

/-- The names that a line refers to. -/
def Directive.uses : Directive → List String
  | .group _ _ members => members
  | .quorum name => [name]
  | _ => []

namespace Reader

/-- No rule has an empty group, but for the one that `none` stands for. -/
structure NoEmptyGroups (reader : Reader) : Prop where
  names : ∀ name rule, reader.find? name = some rule → name ≠ "none" → rule.NoEmptyGroup
  quorum : ∀ rule, reader.draft.quorum = some rule → rule.NoEmptyGroup

variable {reader reader' : Reader} {directive : Directive}

theorem noEmptyGroups_start : start.NoEmptyGroups where
  names := by
    intro name rule hrule hname
    simp [start, find?, hname.symm] at hrule
  quorum := by
    intro rule hrule
    cases hrule

theorem NoEmptyGroups.assign
    (h : reader.NoEmptyGroups) {rule : Quorum KeyHash} (hrule : rule.NoEmptyGroup)
    (name : String) : (reader.assign name rule).NoEmptyGroups where
  names := by
    intro other found hfound hother
    rw [find?_assign] at hfound
    split at hfound
    · rwa [← Option.some.inj hfound]
    · exact h.names other found hfound hother
  quorum := h.quorum

theorem Step.noEmptyGroups
    (hstep : reader.Step directive reader') (huses : "none" ∉ directive.uses)
    (h : reader.NoEmptyGroups) : reader'.NoEmptyGroups := by
  cases hstep with
  | blank => exact h
  | log hlogs => exact ⟨h.names, h.quorum⟩
  | witness hunused hwitnesses =>
      rename_i name entity witnesses
      have hdraft : NoEmptyGroups { reader with draft := { reader.draft with witnesses } } :=
        ⟨h.names, h.quorum⟩
      exact hdraft.assign (Quorum.noEmptyGroup_witness entity.name) name
  | group hunused hmembers hthreshold =>
      rename_i rules
      apply h.assign
      rw [Quorum.noEmptyGroup_group]
      constructor
      · rintro rfl
        rw [hmembers.length_eq] at hthreshold
        exact absurd (Nat.le_trans hthreshold.1 hthreshold.2) (Nat.not_succ_le_zero 0)
      · refine forall_mem_of_forall₂ hmembers ?_
        intro member hmember rule hrule
        exact h.names member rule hrule (ne_of_mem_of_not_mem hmember huses)
  | quorum hrule hunset =>
      refine ⟨h.names, ?_⟩
      rintro _ ⟨⟩
      exact h.names _ _ hrule fun hname => huses (hname ▸ List.mem_singleton_self _)

end Reader

/-- The names that the lines of a text refer to. -/
def namesUsed (text : String) : List String :=
  (Text.lines text.toList).flatMap fun line => (Directive.ofLine? line).elim [] Directive.uses

theorem namesUsed_textOf
    {directives : List (List String)}
    (h : AreWords directives) :
    namesUsed (textOf directives) =
      directives.flatMap fun words => (Directive.ofWords? words).elim [] Directive.uses := by
  rw [namesUsed, lines_textOf h, List.flatMap_map, List.flatMap_def, List.flatMap_def]
  refine congrArg List.flatten (List.map_congr_left fun words hwords => ?_)
  rw [Directive.ofLine?, directive_intercalate (h words hwords)]

/-- The quorum of a text that does not use the name `none` has no empty group. -/
theorem noEmptyGroup_of_ofText
    {text : String} {policy : Policy}
    (h : ofText text = .ok policy) (huses : "none" ∉ namesUsed text) :
    policy.quorum.NoEmptyGroup := by
  obtain ⟨reader, hrun, hdraft⟩ := ofText_eq_ok_iff.mp h
  have hreader : reader.NoEmptyGroups := by
    refine foldlM_keeps (motive := Reader.NoEmptyGroups) ?_ hrun Reader.noEmptyGroups_start
    intro line hmem before after hline hbefore
    obtain ⟨directive, hdirective, hstep⟩ := Reader.readLine_eq_ok_iff.mp hline
    refine hstep.noEmptyGroups ?_ hbefore
    intro hnone
    refine huses (List.mem_flatMap.mpr ⟨line, hmem, ?_⟩)
    rw [hdirective]
    exact hnone
  exact hreader.quorum policy.quorum (by rw [hdraft])

end Policy

end WitnessedLog
