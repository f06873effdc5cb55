import WitnessedLog.Proofs.Policy.LineOrder
import WitnessedLog.Proofs.Quorum.Presence

/-!
# Written rules are read back

A rule is written as definitions of its groups, each after those of its members.  While they are
read the names of the groups that are still to come stay unused, so every group is read under its
own name; and since no name is lost, the name of a member still stands for it when the group is
read.
-/

namespace WitnessedLog

/-- The thresholds in a rule. -/
def Quorum.thresholds {ω : Type} : Quorum ω → List Nat :=
  Quorum.fold (fun _ => []) fun threshold lists => threshold :: lists.flatten

@[simp] theorem Quorum.thresholds_group
    {ω : Type} (threshold : Nat) (members : List (Quorum ω)) :
    (group threshold members).thresholds = threshold :: members.flatMap thresholds := by
  rw [thresholds, fold_group, List.flatMap_def]

namespace Policy

/-! ## Definitions of rules -/

section

variable {names : NameChoice} {count : Nat}

theorem define_group
    (names : NameChoice) (threshold : Nat) (members : List (Quorum KeyHash)) :
    define names (.group threshold members) =
      defineGroup names threshold (members.map (define names)) := by
  rw [define, Quorum.fold_group]

theorem defineGroup_of_ne_nil
    {definitions : List (Nat → Definitions String)}
    (h : definitions ≠ []) (names : NameChoice) (threshold next : Nat) :
    defineGroup names threshold definitions next =
      let defined := defineAll definitions next
      let name := names.group defined.next
      ⟨defined.directives ++ ["group" :: name :: threshold.repr :: defined.names], name,
        defined.next + 1⟩ := by
  rw [defineGroup, if_neg (by simpa using h)]

theorem le_next_defineAll
    {definitions : List (Nat → Definitions String)}
    (h : ∀ definition ∈ definitions, ∀ next, next ≤ (definition next).next) (next : Nat) :
    next ≤ (defineAll definitions next).next := by
  induction definitions generalizing next with
  | nil => exact Nat.le_refl next
  | cons definition definitions ih =>
      obtain ⟨hfirst, hrest⟩ := List.forall_mem_cons.mp h
      exact Nat.le_trans (hfirst next) (ih hrest _)

/-- Numbers are given out in order. -/
theorem le_next_define
    (names : NameChoice) (quorum : Quorum KeyHash) (next : Nat) :
    next ≤ (define names quorum next).next := by
  induction quorum using Quorum.induction generalizing next with
  | witness name => exact Nat.le_refl next
  | group threshold members ih =>
      rw [define_group]
      by_cases hnil : members.map (define names) = []
      · rw [hnil]
        exact Nat.le_refl next
      · rw [defineGroup_of_ne_nil hnil]
        refine Nat.le_succ_of_le (le_next_defineAll ?_ next)
        exact List.forall_mem_map.mpr ih

theorem areWords_defineAll
    {definitions : List (Nat → Definitions String)}
    (hle : ∀ definition ∈ definitions, ∀ next, next ≤ (definition next).next)
    (h : ∀ definition ∈ definitions, ∀ next, (definition next).next ≤ count →
      AreWords ([(definition next).names] :: (definition next).directives))
    {next : Nat} (hcount : (defineAll definitions next).next ≤ count) :
    AreWords ((defineAll definitions next).names :: (defineAll definitions next).directives) := by
  induction definitions generalizing next with
  | nil => simp [AreWords, defineAll]
  | cons definition definitions ih =>
      obtain ⟨hfirst, hrest⟩ := List.forall_mem_cons.mp h
      obtain ⟨-, hleRest⟩ := List.forall_mem_cons.mp hle
      have hfirst := hfirst next (Nat.le_trans (le_next_defineAll hleRest _) hcount)
      have hothers := ih hleRest hrest hcount
      rw [areWords_cons, List.forall_mem_singleton] at hfirst
      rw [areWords_cons] at hothers
      rw [areWords_cons, defineAll, List.forall_mem_cons, areWords_append]
      exact ⟨⟨hfirst.1, hothers.1⟩, hfirst.2, hothers.2⟩

theorem areWords_define
    {quorum : Quorum KeyHash}
    (hwitness : ∀ witness ∈ quorum.names, isWord (names.witness witness) = true)
    (hgroup : ∀ number < count, isWord (names.group number) = true) {next : Nat}
    (hcount : (define names quorum next).next ≤ count) :
    AreWords ([(define names quorum next).names] :: (define names quorum next).directives) := by
  induction quorum using Quorum.induction generalizing next with
  | witness name =>
      rw [areWords_cons, List.forall_mem_singleton]
      exact ⟨hwitness name (by simp), areWords_nil⟩
  | group threshold members ih =>
      rw [define_group] at hcount ⊢
      by_cases hnil : members.map (define names) = []
      · rw [hnil, areWords_cons, List.forall_mem_singleton]
        have hnone : isWord "none" = true := by decide
        exact ⟨hnone, areWords_nil⟩
      · rw [defineGroup_of_ne_nil hnil] at hcount ⊢
        have hmembers := areWords_defineAll (List.forall_mem_map.mpr fun member _ =>
          le_next_define names member) (List.forall_mem_map.mpr fun member hmember next hnext =>
            ih member hmember (fun witness hname =>
              hwitness witness (Quorum.mem_names_group hmember hname)) hnext)
          (Nat.le_of_succ_le hcount)
        have hname := hgroup _ hcount
        rw [areWords_cons] at hmembers
        simp only [areWords_cons, areWords_append, List.forall_mem_singleton, List.forall_mem_cons]
        exact ⟨hname, hmembers.2, ⟨by decide, hname, isWord_repr threshold, hmembers.1⟩,
          areWords_nil⟩

end

/-! ## Following definitions -/

namespace Reader

/-- A reader that is about to read the groups numbered from `next`: the witnesses have their names,
and the names of the groups to come are unused. -/
structure Ready (names : NameChoice) (count : Nat) (draft : Draft) (next : Nat) (reader : Reader) :
    Prop where
  draft_eq : reader.draft = draft
  find?_witness : ∀ witness, draft.witnesses.contains witness = true →
    reader.find? (names.witness witness) = some (.witness witness)
  find?_none : reader.find? "none" = some .unconditional
  find?_group : ∀ number, next ≤ number → number < count →
    reader.find? (names.group number) = none

variable {names : NameChoice} {count next : Nat} {draft : Draft} {reader reader' : Reader}

/-- Once the next group has its name, the one after it is next. -/
theorem Ready.assign
    (h : reader.Ready names count draft next) (hnext : next < count)
    (hgroup : ∀ m < count, ∀ n < count, names.group m = names.group n → m = n)
    (rule : Quorum KeyHash) :
    (reader.assign (names.group next) rule).Ready names count draft (next + 1) := by
  have hkept : ∀ other found, reader.find? other = some found →
      (reader.assign (names.group next) rule).find? other = some found :=
    (find?_assign_of_unused (h.find?_group next (Nat.le_refl next) hnext)).2
  refine ⟨h.draft_eq, fun witness hwitness => hkept _ _ (h.find?_witness witness hwitness),
    hkept _ _ h.find?_none, ?_⟩
  intro number hle hlt
  have hne : names.group next ≠ names.group number := by
    intro heq
    exact absurd (hgroup next hnext number hlt heq) (Nat.ne_of_lt hle)
  rw [find?_assign, if_neg hne]
  exact h.find?_group number (Nat.le_of_succ_le hle) hlt

/-- A group whose members have names is read under the next name. -/
theorem Ready.follow_group
    (h : reader.Ready names count draft next) (hnext : next < count)
    {threshold : Nat} {members : List String} {rules : List (Quorum KeyHash)}
    (hmembers : List.Forall₂ (fun name rule => reader.find? name = some rule) members rules)
    (hthreshold : 1 ≤ threshold ∧ threshold ≤ rules.length) (hfits : threshold < UInt64.size) :
    reader.follow ("group" :: names.group next :: threshold.repr :: members) =
      .ok (reader.assign (names.group next) (.group threshold rules)) := by
  rw [← hmembers.length_eq] at hthreshold
  have hne : members ≠ [] := by
    rintro rfl
    exact absurd (Nat.le_trans hthreshold.1 hthreshold.2) (Nat.not_succ_le_zero 0)
  exact follow_eq_ok_iff.mpr ⟨_, Directive.ofWords?_group hfits hne _,
    .group (h.find?_group next (Nat.le_refl next) hnext) hmembers hthreshold⟩

theorem foldlM_follow_append
    {directives more : List (List String)} {between : Reader}
    (h : directives.foldlM follow reader = .ok between)
    (hmore : more.foldlM follow between = .ok reader') :
    (directives ++ more).foldlM follow reader = .ok reader' := by
  rw [List.foldlM_append, h]
  exact hmore

/-- What definitions of rules do to a reader that is ready for them. -/
theorem exists_follow_defineAll
    {members : List (Quorum KeyHash)}
    (h : ∀ member ∈ members, ∀ next reader, reader.Ready names count draft next →
      (define names member next).next ≤ count →
        ∃ reader', (define names member next).directives.foldlM follow reader = .ok reader' ∧
          reader'.Ready names count draft (define names member next).next ∧
          reader'.find? (define names member next).names = some member)
    (hready : reader.Ready names count draft next)
    (hcount : (defineAll (members.map (define names)) next).next ≤ count) :
    let defined := defineAll (members.map (define names)) next
    ∃ reader', defined.directives.foldlM follow reader = .ok reader' ∧
      reader'.Ready names count draft defined.next ∧
      List.Forall₂ (fun name rule => reader'.find? name = some rule) defined.names members := by
  induction members generalizing next reader with
  | nil => exact ⟨reader, rfl, hready, .nil⟩
  | cons member members ih =>
      obtain ⟨hfirst, hrest⟩ := List.forall_mem_cons.mp h
      have hle := le_next_defineAll (List.forall_mem_map.mpr fun member (_ : member ∈ members) =>
        le_next_define names member) (define names member next).next
      obtain ⟨between, hrun, hbetween, hname⟩ := hfirst next reader hready (Nat.le_trans hle hcount)
      obtain ⟨reader', hrun', hready', hnames⟩ := ih hrest hbetween hcount
      exact ⟨reader', foldlM_follow_append hrun hrun', hready',
        .cons ((within_of_follow hrun').names _ _ hname) hnames⟩

theorem exists_follow_define
    {quorum : Quorum KeyHash}
    (hgroup : ∀ m < count, ∀ n < count, names.group m = names.group n → m = n)
    (hwellFormed : quorum.WellFormed)
    (hclosed : ∀ witness ∈ quorum.names, draft.witnesses.contains witness = true)
    (hthresholds : ∀ threshold ∈ quorum.thresholds, threshold < UInt64.size)
    (hready : reader.Ready names count draft next)
    (hcount : (define names quorum next).next ≤ count) :
    ∃ reader', (define names quorum next).directives.foldlM follow reader = .ok reader' ∧
      reader'.Ready names count draft (define names quorum next).next ∧
      reader'.find? (define names quorum next).names = some quorum := by
  induction quorum using Quorum.induction generalizing next reader with
  | witness name => exact ⟨reader, rfl, hready, hready.find?_witness name (hclosed name (by simp))⟩
  | group threshold members ih =>
      obtain ⟨hfits, hmembers⟩ := (Quorum.wellFormed_group threshold members).mp hwellFormed
      rw [Quorum.thresholds_group, List.forall_mem_cons] at hthresholds
      rw [define_group] at hcount ⊢
      by_cases hnil : members = []
      · -- The group of no members has no line, and `none` stands for it from the start.
        subst hnil
        obtain rfl : threshold = 0 := by
          rcases hfits with ⟨-, hzero⟩ | ⟨hone, hle⟩
          · exact hzero
          · exact absurd (Nat.le_trans hone hle) (Nat.not_succ_le_zero 0)
        exact ⟨reader, rfl, hready, hready.find?_none⟩
      · have hdefinitions : members.map (define names) ≠ [] := by simpa using hnil
        rw [defineGroup_of_ne_nil hdefinitions] at hcount ⊢
        obtain ⟨between, hrun, hbetween, hnames⟩ := exists_follow_defineAll (by
          intro member hmember next reader hready hcount
          refine ih member hmember (hmembers member hmember) ?_ ?_ hready hcount
          · intro witness hname
            exact hclosed witness (Quorum.mem_names_group hmember hname)
          · intro other hother
            exact hthresholds.2 other (List.mem_flatMap.mpr ⟨member, hmember, hother⟩))
          hready (Nat.le_of_succ_le hcount)
        have hthreshold : 1 ≤ threshold ∧ threshold ≤ members.length := by
          refine hfits.resolve_left ?_
          rintro ⟨hzero, -⟩
          exact hnil (List.length_eq_zero_iff.mp hzero)
        have hfollow := hbetween.follow_group hcount hnames hthreshold hthresholds.1
        refine ⟨_, foldlM_follow_append hrun ?_,
          hbetween.assign hcount hgroup (.group threshold members), ?_⟩
        · rw [List.foldlM_cons, hfollow]
          rfl
        · rw [find?_assign, if_pos rfl]

end Reader

end Policy

end WitnessedLog
