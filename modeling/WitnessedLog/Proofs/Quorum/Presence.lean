import Mathlib.Logic.Function.DependsOn
import Mathlib.Order.Monotone.Defs
import WitnessedLog.Quorum

/-!
# Which witnesses matter to a rule

A rule looks only at the witnesses that it names, and more of them never hurt.  Naming the
witnesses otherwise, for instance by number, does not change who satisfies the rule.
-/

namespace WitnessedLog

namespace Quorum

variable {ω ω' : Type}

theorem mem_names_group
    {threshold : Nat} {members : List (Quorum ω)} {member : Quorum ω} {name : ω}
    (hmember : member ∈ members) (hname : name ∈ member.names) :
    name ∈ (group threshold members).names := by
  rw [names_group]
  exact List.mem_flatMap.mpr ⟨member, hmember, hname⟩

/-! ## More witnesses never hurt -/

/-- Members that follow from members that are satisfied add up to at least as many. -/
theorem isSatisfied_group_of_members
    {s t : ω → Bool} {threshold : Nat} {members : List (Quorum ω)}
    (hmembers : ∀ member ∈ members, member.isSatisfied s = true → member.isSatisfied t = true)
    (h : (group threshold members).isSatisfied s = true) :
    (group threshold members).isSatisfied t = true := by
  rw [isSatisfied_group, decide_eq_true_eq] at h ⊢
  exact Nat.le_trans h (List.countP_mono_left hmembers)

theorem isSatisfied_of_names_imp
    {s t : ω → Bool} {quorum : Quorum ω}
    (hnames : ∀ name ∈ quorum.names, s name = true → t name = true)
    (h : quorum.isSatisfied s = true) :
    quorum.isSatisfied t = true := by
  induction quorum using Quorum.induction with
  | witness name => exact hnames name (by simp) h
  | group threshold members ih =>
      refine isSatisfied_group_of_members ?_ h
      intro member hmember
      apply ih member hmember
      intro name hname
      exact hnames name (mem_names_group hmember hname)

/-- A rule does not look beyond the witnesses that it names. -/
theorem isSatisfied_congr_names
    {s t : ω → Bool} {quorum : Quorum ω}
    (hnames : ∀ name ∈ quorum.names, s name = t name) :
    quorum.isSatisfied s = quorum.isSatisfied t := by
  apply Bool.eq_iff_iff.mpr
  constructor
  · exact isSatisfied_of_names_imp fun name hname hs => hnames name hname ▸ hs
  · exact isSatisfied_of_names_imp fun name hname ht => (hnames name hname).symm ▸ ht

/-- Whatever the thresholds of a rule, some witnesses who satisfy it can be replaced by others as long
as those of them whom the rule names stay.  So more witnesses satisfy it too, and those that it does
not name make no difference. -/
theorem monotone_dependsOn_isSatisfied (quorum : Quorum ω) :
    (∀ s t : ω → Bool, (∀ name ∈ quorum.names, s name = true → t name = true) →
      quorum.isSatisfied s = true → quorum.isSatisfied t = true) ∧
      Monotone (fun present => quorum.isSatisfied present) ∧
      DependsOn (fun present => quorum.isSatisfied present) {name | name ∈ quorum.names} := by
  refine ⟨fun s t => isSatisfied_of_names_imp, ?_, ?_⟩
  · intro s t hle
    rw [Bool.le_iff_imp]
    exact isSatisfied_of_names_imp fun name _ => Bool.le_iff_imp.mp (hle name)
  · intro s t hsame
    exact isSatisfied_congr_names hsame

/-- A group that asks for one of a witness, a group that nobody can satisfy and a group of one witness
listed twice. -/
def sampleUnsealed : Quorum Nat :=
  .group 1 [.witness 1, .group 3 [.witness 2], .group 2 [.witness 4, .witness 4]]

/-- The witness 4 satisfies the sample, and 2 and 9 with him as well. -/
theorem isSatisfied_sampleUnsealed :
    (∀ name ∈ sampleUnsealed.names, [4, 7].contains name = true → [2, 4, 9].contains name = true) ∧
      sampleUnsealed.isSatisfied [4, 7].contains = true ∧
      sampleUnsealed.isSatisfied [2, 4, 9].contains = true := by
  have hnames : ∀ name ∈ sampleUnsealed.names,
      [4, 7].contains name = true → [2, 4, 9].contains name = true := by decide
  have hsome : sampleUnsealed.isSatisfied [4, 7].contains = true := by decide
  exact ⟨hnames, hsome, (monotone_dependsOn_isSatisfied sampleUnsealed).1 _ _ hnames hsome⟩

/-! ## Groups that ask for something -/

/-- No group of a rule is without members. -/
def NoEmptyGroup : Quorum ω → Prop :=
  fold (fun _ => True) (fun _ results => results ≠ [] ∧ ∀ result ∈ results, result)

@[simp] theorem noEmptyGroup_witness (name : ω) : (witness name).NoEmptyGroup := trivial

@[simp] theorem noEmptyGroup_group
    (threshold : Nat) (members : List (Quorum ω)) :
    (group threshold members).NoEmptyGroup ↔
      members ≠ [] ∧ ∀ member ∈ members, member.NoEmptyGroup := by
  rw [NoEmptyGroup, fold_group]
  exact and_congr (not_congr List.map_eq_nil_iff) List.forall_mem_map

/-- A well-formed rule without empty groups asks for somebody. -/
theorem isSatisfied_of_nobody
    {quorum : Quorum ω}
    (hwellFormed : quorum.WellFormed) (hnonempty : quorum.NoEmptyGroup) :
    quorum.isSatisfied (fun _ => false) = false := by
  induction quorum using Quorum.induction with
  | witness name => rfl
  | group threshold members ih =>
      obtain ⟨hfits, hwellFormed⟩ := (wellFormed_group threshold members).mp hwellFormed
      obtain ⟨hne, hnonempty⟩ := (noEmptyGroup_group threshold members).mp hnonempty
      have hthreshold : 1 ≤ threshold := by
        rcases hfits with ⟨hsize, -⟩ | ⟨hthreshold, -⟩
        · exact absurd (List.length_eq_zero_iff.mp hsize) hne
        · exact hthreshold
      have hcount : members.countP (isSatisfied fun _ => false) = 0 := by
        rw [List.countP_eq_zero]
        intro member hmember
        rw [ih member hmember (hwellFormed member hmember) (hnonempty member hmember)]
        exact Bool.false_ne_true
      rw [isSatisfied_group, hcount, decide_eq_false_iff_not]
      omega

/-! ## Other names for the witnesses -/

/-- The rule with every witness named otherwise. -/
def rename (naming : ω → ω') : Quorum ω → Quorum ω' :=
  fold (fun name => .witness (naming name)) .group

variable (naming : ω → ω')

@[simp] theorem rename_witness (name : ω) :
    (witness name).rename naming = .witness (naming name) := rfl

@[simp] theorem rename_group
    (threshold : Nat) (members : List (Quorum ω)) :
    (group threshold members).rename naming = .group threshold (members.map (rename naming)) := by
  rw [rename, fold_group]

theorem isSatisfied_rename
    (present : ω' → Bool) (quorum : Quorum ω) :
    (quorum.rename naming).isSatisfied present =
      quorum.isSatisfied (fun name => present (naming name)) := by
  induction quorum using Quorum.induction with
  | witness name => rfl
  | group threshold members ih =>
      rw [rename_group, isSatisfied_group, isSatisfied_group, List.countP_map,
        List.countP_congr fun member hmember => by rw [Function.comp_apply, ih member hmember]]

theorem names_rename (quorum : Quorum ω) :
    (quorum.rename naming).names = quorum.names.map naming := by
  induction quorum using Quorum.induction with
  | witness name => rfl
  | group threshold members ih =>
      rw [rename_group, names_group, names_group, List.map_flatMap, List.flatMap_map]
      rw [List.flatMap_def, List.flatMap_def, List.map_congr_left ih]

/-- A rule is recovered from its renaming if each of its names can be. -/
theorem rename_rename_eq_self
    {naming : ω → ω'} {back : ω' → ω} {quorum : Quorum ω}
    (h : ∀ name ∈ quorum.names, back (naming name) = name) :
    (quorum.rename naming).rename back = quorum := by
  induction quorum using Quorum.induction with
  | witness name => rw [rename_witness, rename_witness, h name (by simp)]
  | group threshold members ih =>
      have hmembers : members.map (rename back ∘ rename naming) = members := by
        rw [List.map_congr_left (g := id), List.map_id]
        intro member hmember
        apply ih member hmember
        intro name hname
        exact h name (mem_names_group hmember hname)
      rw [rename_group, rename_group, List.map_map, hmembers]

theorem wellFormed_rename
    {quorum : Quorum ω}
    (h : quorum.WellFormed) :
    (quorum.rename naming).WellFormed := by
  induction quorum using Quorum.induction with
  | witness name => trivial
  | group threshold members ih =>
      obtain ⟨hfits, hmembers⟩ := (wellFormed_group threshold members).mp h
      rw [rename_group, wellFormed_group, List.length_map]
      refine ⟨hfits, List.forall_mem_map.mpr ?_⟩
      intro member hmember
      exact ih member hmember (hmembers member hmember)

theorem noEmptyGroup_rename
    {quorum : Quorum ω}
    (h : quorum.NoEmptyGroup) :
    (quorum.rename naming).NoEmptyGroup := by
  induction quorum using Quorum.induction with
  | witness name => trivial
  | group threshold members ih =>
      obtain ⟨hne, hmembers⟩ := (noEmptyGroup_group threshold members).mp h
      rw [rename_group, noEmptyGroup_group]
      refine ⟨fun hnil => hne (List.map_eq_nil_iff.mp hnil), List.forall_mem_map.mpr ?_⟩
      intro member hmember
      exact ih member hmember (hmembers member hmember)

end Quorum

end WitnessedLog
