import Mathlib.Data.List.Induction
import WitnessedLog.Policy.Drafting
import WitnessedLog.Proofs.Policy.ClosedNames

/-!
# What a run of changes leaves in a draft

A draft after any run is told from the list of the changes that were tried: of the entities with one
key it holds the first, of the quorums the first, and the changes that come too late leave no trace.
So it is the draft that the successful changes make by themselves, and whether it can be sealed
depends only on the quorum chosen first and on the witnesses tried before or after it.
-/

namespace WitnessedLog

/-! ## Adding to a roster -/

namespace Roster

variable (roster : Roster)

theorem add?_eq_none_iff (entity : Entity) :
    roster.add? entity = none ↔ roster.contains entity.name = true := by
  rw [add?, ite_eq_left_iff]
  simp

theorem add?_eq_put (entity : Entity) :
    roster.add? entity =
      if roster.contains entity.name then none else some (roster.put entity) :=
  rfl

/-- An entity that a roster does not list is found by its name afterwards, and one that it lists
changes nothing. -/
theorem get?_getD_add? (entity : Entity) (name : KeyHash) :
    ((roster.add? entity).getD roster).get? name =
      (roster.get? name).or (if entity.name = name then some entity else none) := by
  cases hadd : roster.add? entity with
  | some roster' =>
      obtain ⟨hnew, hget⟩ := add?_eq_some_iff.mp hadd
      rw [Option.getD_some, hget]
      by_cases hname : name = entity.name
      · rw [if_pos hname, if_pos hname.symm, hname, hnew, Option.none_or]
      · rw [if_neg hname, if_neg (Ne.symm hname), Option.or_none]
  | none =>
      have hlisted : (roster.get? entity.name).isSome := (add?_eq_none_iff roster entity).mp hadd
      rw [Option.getD_none]
      by_cases hname : entity.name = name
      · rw [if_pos hname, Option.or_of_isSome (hname ▸ hlisted)]
      · rw [if_neg hname, Option.or_none]

/-- A roster holds the first of the entities with one key. -/
def HoldsFirst (entities : List Entity) : Prop :=
  ∀ name, roster.get? name = entities.find? (fun entity => entity.name = name)

variable {roster} {entities : List Entity}

theorem HoldsFirst.contains_eq
    (h : roster.HoldsFirst entities) (name : KeyHash) :
    roster.contains name = entities.any (fun entity => entity.name = name) := by
  rw [KeyTable.contains, h, List.isSome_find?]

theorem HoldsFirst.add
    (h : roster.HoldsFirst entities) (entity : Entity) :
    ((roster.add? entity).getD roster).HoldsFirst (entities ++ [entity]) := by
  intro name
  rw [get?_getD_add?, h, List.find?_append, List.find?_singleton]
  simp

end Roster

namespace Policy

namespace Draft

/-! ## What was tried -/

/-- The logs that were to be added, in the order in which they were tried. -/
def Change.logs (changes : List Change) : List Entity :=
  changes.filterMap log?

/-- The witnesses that were to be added, in the order in which they were tried. -/
def Change.witnesses (changes : List Change) : List Entity :=
  changes.filterMap witness?

/-- The quorums that were to be chosen, in the order in which they were tried. -/
def Change.rules (changes : List Change) : List (Quorum KeyHash) :=
  changes.filterMap rule?

theorem Change.logs_concat (changes : List Change) (change : Change) :
    logs (changes ++ [change]) = logs changes ++ change.log?.toList := by
  rw [logs, logs, List.filterMap_append]
  cases change <;> rfl

theorem Change.witnesses_concat (changes : List Change) (change : Change) :
    witnesses (changes ++ [change]) = witnesses changes ++ change.witness?.toList := by
  rw [witnesses, witnesses, List.filterMap_append]
  cases change <;> rfl

theorem Change.rules_concat (changes : List Change) (change : Change) :
    rules (changes ++ [change]) = rules changes ++ change.rule?.toList := by
  rw [rules, rules, List.filterMap_append]
  cases change <;> rfl

/-- Why a change is refused behind others: there was one for the same key, or one for a quorum. -/
def Change.refusal? (earlier : List Change) : Change → Option PolicyError
  | .log entity =>
    if (logs earlier).any (fun other => other.name = entity.name) then
      some (.duplicateLog entity.name)
    else none
  | .witness entity =>
    if (witnesses earlier).any (fun other => other.name = entity.name) then
      some (.duplicateWitness entity.name)
    else none
  | .quorum _ => if (rules earlier).isEmpty then none else some .quorumAlreadySet

/-! ## One change -/

variable (draft : Draft)

theorem Work.run_get_bind {α : Type} (next : Draft → Work α) :
    (((get : Work Draft) >>= next).run.run draft).run = ((next draft).run.run draft).run :=
  rfl

theorem Work.run_map {α β : Type} (f : α → β) (work : Work α) :
    ((f <$> work).run.run draft).run =
      ((work.run.run draft).run.1.map f, (work.run.run draft).run.2) := by
  rw [ExceptT.run_map, StateT.run_map]
  rfl

theorem attempt_log (entity : Entity) :
    draft.attempt (.log entity) =
      (if draft.logs.contains entity.name then .error (.duplicateLog entity.name)
        else .ok (some entity.name),
      { draft with logs := (draft.logs.add? entity).getD draft.logs }) := by
  rw [attempt, Work.make, Work.run_map, Work.addLog, Work.run_get_bind, Roster.add?_eq_put]
  split
  · rfl
  · rfl

theorem attempt_witness (entity : Entity) :
    draft.attempt (.witness entity) =
      (if draft.witnesses.contains entity.name then .error (.duplicateWitness entity.name)
        else .ok (some entity.name),
      { draft with witnesses := (draft.witnesses.add? entity).getD draft.witnesses }) := by
  rw [attempt, Work.make, Work.run_map, Work.addWitness, Work.run_get_bind,
    Roster.add?_eq_put]
  split
  · rfl
  · rfl

theorem attempt_quorum (rule : Quorum KeyHash) :
    draft.attempt (.quorum rule) =
      (if draft.quorum.isNone then .ok none else .error .quorumAlreadySet,
      { draft with quorum := draft.quorum.or (some rule) }) := by
  obtain ⟨logs, witnesses, quorum⟩ := draft
  cases quorum with
  | none => rfl
  | some chosen => rfl

/-- Work on one draft that is changed in place comes to the same as making the changed draft, which
there is only after a success. -/
theorem attempt_eq_make (change : Change) :
    draft.attempt change =
      match draft.make change with
      | .ok changed => (.ok change.name?, changed)
      | .error e => (.error e, draft) := by
  cases change with
  | log entity =>
      rw [attempt_log, make, addLog, Roster.add?_eq_put]
      split
      · rfl
      · rfl
  | witness entity =>
      rw [attempt_witness, make, addWitness, Roster.add?_eq_put]
      split
      · rfl
      · rfl
  | quorum rule =>
      obtain ⟨logs, witnesses, quorum⟩ := draft
      cases quorum with
      | none => rfl
      | some chosen => rfl

/-- A draft holds the first of the entities with one key and the first of the quorums. -/
structure HoldsFirst (changes : List Change) : Prop where
  logs : draft.logs.HoldsFirst (Change.logs changes)
  witnesses : draft.witnesses.HoldsFirst (Change.witnesses changes)
  quorum : draft.quorum = (Change.rules changes).head?

variable {draft} {changes : List Change}

/-- A change that is refused leaves the draft as it was. -/
theorem attempt_of_error
    {change : Change} {e : PolicyError}
    (h : (draft.attempt change).1 = .error e) : (draft.attempt change).2 = draft := by
  rw [attempt_eq_make] at h ⊢
  cases hmake : draft.make change with
  | error cause => rfl
  | ok changed =>
      rw [hmake] at h
      cases h

theorem holdsFirst_empty : empty.HoldsFirst [] where
  logs _ := rfl
  witnesses _ := rfl
  quorum := rfl

/-- A change is refused exactly for what was tried before it. -/
theorem HoldsFirst.answer_eq
    (h : draft.HoldsFirst changes) (change : Change) :
    (draft.attempt change).1 =
      match change.refusal? changes with
      | some e => .error e
      | none => .ok change.name? := by
  cases change with
  | log entity =>
      rw [attempt_log, h.logs.contains_eq, Change.refusal?]
      split <;> rfl
  | witness entity =>
      rw [attempt_witness, h.witnesses.contains_eq, Change.refusal?]
      split <;> rfl
  | quorum rule =>
      rw [attempt_quorum, h.quorum, Change.refusal?]
      cases Change.rules changes <;> rfl

theorem HoldsFirst.attempt
    (h : draft.HoldsFirst changes) (change : Change) :
    (draft.attempt change).2.HoldsFirst (changes ++ [change]) := by
  cases change with
  | log entity =>
      rw [attempt_log]
      refine ⟨?_, ?_, ?_⟩
      · simpa [Change.logs_concat, Change.log?] using h.logs.add entity
      · simpa [Change.witnesses_concat, Change.witness?] using h.witnesses
      · simpa [Change.rules_concat, Change.rule?] using h.quorum
  | witness entity =>
      rw [attempt_witness]
      refine ⟨?_, ?_, ?_⟩
      · simpa [Change.logs_concat, Change.log?] using h.logs
      · simpa [Change.witnesses_concat, Change.witness?] using h.witnesses.add entity
      · simpa [Change.rules_concat, Change.rule?] using h.quorum
  | quorum rule =>
      rw [attempt_quorum]
      refine ⟨?_, ?_, ?_⟩
      · simpa [Change.logs_concat, Change.log?] using h.logs
      · simpa [Change.witnesses_concat, Change.witness?] using h.witnesses
      · simp [Change.rules_concat, Change.rule?, h.quorum]

/-! ## A run -/

theorem run_concat (changes : List Change) (change : Change) :
    draft.run (changes ++ [change]) = ((draft.run changes).attempt change).2 := by
  rw [run, run, List.foldl_concat]

theorem holdsFirst_run (changes : List Change) : (empty.run changes).HoldsFirst changes := by
  induction changes using List.reverseRecOn with
  | nil => exact holdsFirst_empty
  | append_singleton changes change ih =>
      rw [run_concat]
      exact ih.attempt change

/-- The changes that were made can be made without the others, and lead to the same draft. -/
theorem foldlM_make_made (changes : List Change) (draft : Draft) :
    (draft.made changes).foldlM make draft = .ok (draft.run changes) := by
  induction changes generalizing draft with
  | nil => rfl
  | cons change changes ih =>
      rw [made, run, List.foldl_cons, ← run, attempt_eq_make]
      cases hmake : draft.make change with
      | error e => exact ih draft
      | ok changed =>
          simp only [List.foldlM_cons, hmake]
          exact ih changed

theorem run_eq_of_foldlM
    {draft drafted : Draft}
    (h : changes.foldlM make draft = .ok drafted) : draft.run changes = drafted := by
  induction changes generalizing draft with
  | nil => exact Except.ok.inj h
  | cons change changes ih =>
      rw [List.foldlM_cons, bind_eq_ok_iff] at h
      obtain ⟨changed, hmake, h⟩ := h
      rw [run, List.foldl_cons, ← run, attempt_eq_make, hmake]
      exact ih h

/-- A draft can be sealed exactly if its quorum is well-formed and names only its witnesses. -/
theorem exists_finalize_iff :
    (∃ policy, draft.finalize = .ok policy) ↔
      ∃ rule, draft.quorum = some rule ∧ draft.Admits rule := by
  constructor
  · rintro ⟨policy, hpolicy⟩
    rw [finalize_eq_ok_iff] at hpolicy
    subst hpolicy
    exact ⟨policy.quorum, rfl, policy.wellFormed, policy.closed⟩
  · rintro ⟨rule, hrule, hwellFormed, hclosed⟩
    refine ⟨⟨draft.logs, draft.witnesses, rule, hwellFormed, hclosed⟩, ?_⟩
    rw [finalize_eq_ok_iff, ← hrule]

/-- A change is refused exactly for what was tried before it, and a change that is refused leaves the
draft as it was.  So a run leaves the draft that its successful changes make, and it is sealed like
that one.  Of the entities with one key the first is there, under the hash of the key, and of the
quorums the first.  Sealing adds nothing to the draft, and succeeds exactly if a quorum was chosen
whose thresholds suit its groups, at every depth, and each witness that it names was tried before or
after it. -/
theorem run_keeps_first (changes : List Change) :
    let draft := empty.run changes
    (∀ change : Change, match change.refusal? changes with
      | some e => draft.attempt change = (.error e, draft)
      | none => (draft.attempt change).1 = .ok change.name?) ∧
      (empty.made changes).foldlM make empty = .ok draft ∧
      (empty.run (empty.made changes)).finalize = draft.finalize ∧
      (∀ name, draft.logs.get? name =
        (Change.logs changes).find? (fun log => keyHash log.publicKey = name)) ∧
      (∀ name, draft.witnesses.get? name =
        (Change.witnesses changes).find? (fun witness => keyHash witness.publicKey = name)) ∧
      draft.quorum = (Change.rules changes).head? ∧
      (∀ policy, draft.finalize = .ok policy ↔
        draft = ⟨policy.logs, policy.witnesses, some policy.quorum⟩) ∧
      ((∃ policy, draft.finalize = .ok policy) ↔
        ∃ rule, (Change.rules changes).head? = some rule ∧ rule.WellFormed ∧
          ∀ name ∈ rule.names, ∃ witness ∈ Change.witnesses changes,
            keyHash witness.publicKey = name) := by
  intro draft
  have hfirst : draft.HoldsFirst changes := holdsFirst_run changes
  have hmade : (empty.made changes).foldlM make empty = .ok draft := foldlM_make_made changes empty
  refine ⟨?_, hmade, ?_, hfirst.logs, hfirst.witnesses, hfirst.quorum,
    fun _ => finalize_eq_ok_iff, ?_⟩
  · intro change
    have hanswer := hfirst.answer_eq change
    split
    · rename_i e hrefusal
      rw [hrefusal] at hanswer
      exact Prod.ext hanswer (attempt_of_error hanswer)
    · rename_i hrefusal
      rwa [hrefusal] at hanswer
  · rw [run_eq_of_foldlM hmade]
  · have hlisted : ∀ name, draft.witnesses.contains name = true ↔
        ∃ witness ∈ Change.witnesses changes, keyHash witness.publicKey = name := by
      intro name
      rw [hfirst.witnesses.contains_eq, List.any_eq_true]
      simp only [decide_eq_true_eq]
      rfl
    simp only [exists_finalize_iff, hfirst.quorum, Admits, hlisted]

end Draft

end Policy

end WitnessedLog
