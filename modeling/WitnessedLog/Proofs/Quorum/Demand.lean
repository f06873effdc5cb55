import Mathlib.Algebra.GroupWithZero.Nat
import Mathlib.Algebra.Order.BigOperators.Group.List
import Mathlib.Algebra.Order.Group.Nat
import Mathlib.Data.Finset.Card
import Mathlib.Data.List.Flatten
import Mathlib.Data.List.Sort
import WitnessedLog.Proofs.Quorum.Presence
import WitnessedLog.Quorum.Demand

/-!
# How many witnesses satisfy a rule

The members of a group that are satisfied are at least as many as its threshold, so together they
demand no less than the same number of members that demand the least.  A rule in which no witness
occurs twice is therefore satisfied by no fewer witnesses than it demands.  It is also satisfied by
that many, if its thresholds suit their groups.
-/

namespace WitnessedLog

namespace Quorum

/-! ## The least numbers of a list -/

theorem leastSum_eq_sum (count : Nat) (numbers : List Nat) :
    leastSum count numbers = ((numbers.mergeSort (· ≤ ·)).take count).sum :=
  List.sum_eq_foldr.symm

/-- An ascending list has its least numbers in front. -/
theorem sum_take_le_sum_take
    {numbers chosen : List Nat} (hsub : chosen.Sublist numbers)
    (hascending : numbers.Pairwise (· ≤ ·)) {count : Nat} (hcount : count ≤ chosen.length) :
    (numbers.take count).sum ≤ (chosen.take count).sum := by
  induction hsub generalizing count with
  | slnil => simp
  | @cons chosen numbers first hsub ih =>
      obtain ⟨hfirst, hascending⟩ := List.pairwise_cons.mp hascending
      cases count with
      | zero => simp
      | succ count =>
          have hlt : count < chosen.length := hcount
          have hrest : (numbers.take count).sum ≤ (chosen.take count).sum :=
            ih hascending (Nat.le_of_lt hlt)
          have hlast : first ≤ chosen[count] := hfirst _ (hsub.subset (List.getElem_mem hlt))
          rw [List.take_succ_cons, List.sum_cons, List.take_succ_eq_append_getElem hlt,
            List.sum_append, List.sum_singleton, Nat.add_comm]
          exact Nat.add_le_add hrest hlast
  | @cons_cons chosen numbers first hsub ih =>
      obtain ⟨-, hascending⟩ := List.pairwise_cons.mp hascending
      cases count with
      | zero => simp
      | succ count =>
          rw [List.take_succ_cons, List.take_succ_cons, List.sum_cons, List.sum_cons]
          exact Nat.add_le_add_left (ih hascending (Nat.le_of_succ_le_succ hcount)) first

/-- No numbers of a list sum up to less than as many of the least ones. -/
theorem leastSum_le_sum
    {numbers chosen : List Nat} (hsub : chosen.Sublist numbers) {count : Nat}
    (hcount : count ≤ chosen.length) : leastSum count numbers ≤ chosen.sum := by
  have hperm : (numbers.mergeSort (· ≤ ·)).Perm numbers := List.mergeSort_perm _ _
  obtain ⟨chosen', hchosen, hsub'⟩ := hsub.subperm.trans hperm.symm.subperm
  calc
    leastSum count numbers = ((numbers.mergeSort (· ≤ ·)).take count).sum :=
      leastSum_eq_sum count numbers
    _ ≤ (chosen'.take count).sum :=
      sum_take_le_sum_take hsub' (List.pairwise_mergeSort' _ _) (hchosen.length_eq ▸ hcount)
    _ ≤ chosen'.sum := (List.take_sublist count chosen').sum_le_sum fun _ _ => Nat.zero_le _
    _ = chosen.sum := hchosen.sum_eq

/-- Some elements of a list together have the least values. -/
theorem exists_sublist_sum_eq_leastSum
    {α : Type} (value : α → Nat) {list : List α} {count : Nat} (hcount : count ≤ list.length) :
    ∃ cheapest : List α, cheapest.Sublist list ∧ cheapest.length = count ∧
      (cheapest.map value).sum = leastSum count (list.map value) := by
  have hperm : ((list.map value).mergeSort (· ≤ ·)).Perm (list.map value) :=
    List.mergeSort_perm _ _
  obtain ⟨values, hvalues, hsub⟩ := ((List.take_sublist count _).subperm).trans hperm.subperm
  obtain ⟨cheapest, hcheapest, rfl⟩ := List.sublist_map_iff.mp hsub
  refine ⟨cheapest, hcheapest, ?_, ?_⟩
  · have hlength := hvalues.length_eq
    rw [List.length_map, List.length_take, List.length_mergeSort, List.length_map] at hlength
    rw [hlength, Nat.min_eq_left hcount]
  · rw [leastSum_eq_sum, hvalues.sum_eq]

/-! ## What it takes to satisfy a rule -/

variable {ω : Type} {quorum : Quorum ω}

/-- A rule is satisfied only if as many of its witnesses are present as it demands. -/
theorem demand_le_countP_names
    {present : ω → Bool} (h : quorum.isSatisfied present = true) :
    quorum.demand ≤ quorum.names.countP present := by
  induction quorum using Quorum.induction with
  | witness name =>
      have hpresent : present name = true := h
      simp [hpresent]
  | group threshold members ih =>
      rw [isSatisfied_group, decide_eq_true_eq, List.countP_eq_length_filter] at h
      let satisfied := members.filter (isSatisfied present)
      have hsub : satisfied.Sublist members := List.filter_sublist
      calc
        (group threshold members).demand = leastSum threshold (members.map demand) :=
          demand_group threshold members
        _ ≤ (satisfied.map demand).sum :=
          leastSum_le_sum (hsub.map demand) (by rwa [List.length_map])
        _ ≤ (satisfied.map fun member => member.names.countP present).sum := by
          apply List.sum_le_sum
          intro member hmember
          obtain ⟨hmem, hsatisfied⟩ := List.mem_filter.mp hmember
          exact ih member hmem hsatisfied
        _ ≤ (members.map fun member => member.names.countP present).sum :=
          (hsub.map _).sum_le_sum fun _ _ => Nat.zero_le _
        _ = (group threshold members).names.countP present := by
          rw [names_group, List.countP_flatMap]
          rfl

/-- A well-formed rule is satisfied by some of its witnesses, as many as it demands. -/
theorem exists_satisfied_of_length_eq_demand
    [DecidableEq ω] (h : quorum.WellFormed) :
    ∃ chosen : List ω, chosen.Sublist quorum.names ∧ chosen.length = quorum.demand ∧
      quorum.isSatisfied (fun name => decide (name ∈ chosen)) = true := by
  induction quorum using Quorum.induction with
  | witness name => exact ⟨[name], List.Sublist.refl _, rfl, by simp⟩
  | group threshold members ih =>
      obtain ⟨hfits, hmembers⟩ := (wellFormed_group threshold members).mp h
      have hthreshold : threshold ≤ members.length := by
        rcases hfits with ⟨-, hzero⟩ | ⟨-, hle⟩
        · omega
        · exact hle
      choose! chosen hchosen hlength hsatisfied using fun member hmember =>
        ih member hmember (hmembers member hmember)
      obtain ⟨cheapest, hcheapest, hcount, hsum⟩ :=
        exists_sublist_sum_eq_leastSum demand hthreshold
      have hmem : ∀ member ∈ cheapest, member ∈ members := fun _ hmember =>
        hcheapest.subset hmember
      refine ⟨cheapest.flatMap chosen, ?_, ?_, ?_⟩
      · rw [names_group]
        exact (List.Sublist.flatMap_right _ fun member hmember =>
          hchosen member (hmem member hmember)).trans (hcheapest.flatMap names)
      · rw [List.length_flatMap, demand_group, ← hsum]
        exact congrArg List.sum (List.map_congr_left fun member hmember =>
          hlength member (hmem member hmember))
      · -- Each of the cheapest members is satisfied by its own part of what was chosen.
        have hall : ∀ member ∈ cheapest, member.isSatisfied
            (fun name => decide (name ∈ cheapest.flatMap chosen)) = true := by
          intro member hmember
          apply isSatisfied_of_names_imp _ (hsatisfied member (hmem member hmember))
          intro name _ hname
          rw [decide_eq_true_eq] at hname ⊢
          exact List.mem_flatMap.mpr ⟨member, hmember, hname⟩
        rw [isSatisfied_group, decide_eq_true_eq, ← hcount, ← List.countP_eq_length.mpr hall]
        exact hcheapest.countP_le

/-! ## Rules that name no witness twice -/

variable [DecidableEq ω]

/-- A rule that names no witness twice is satisfied only by sets with as many of its witnesses as
it demands. -/
theorem demand_le_card_inter
    (hnodup : quorum.names.Nodup) {present : Finset ω}
    (h : quorum.isSatisfied (fun name => decide (name ∈ present)) = true) :
    quorum.demand ≤ (present ∩ quorum.names.toFinset).card := by
  have hinter : present ∩ quorum.names.toFinset =
      (quorum.names.filter fun name => decide (name ∈ present)).toFinset := by
    ext name
    simp [and_comm]
  rw [hinter, List.toFinset_card_of_nodup (hnodup.filter _), ← List.countP_eq_length_filter]
  exact demand_le_countP_names h

/-- As many of its witnesses as it demands can satisfy a rule. -/
theorem exists_card_eq_demand
    (hnodup : quorum.names.Nodup) (h : quorum.WellFormed) :
    ∃ present : Finset ω, present ⊆ quorum.names.toFinset ∧ present.card = quorum.demand ∧
      quorum.isSatisfied (fun name => decide (name ∈ present)) = true := by
  obtain ⟨chosen, hsub, hlength, hsatisfied⟩ := exists_satisfied_of_length_eq_demand h
  refine ⟨chosen.toFinset, ?_, ?_, ?_⟩
  · intro name hname
    rw [List.mem_toFinset] at hname ⊢
    exact hsub.subset hname
  · rw [List.toFinset_card_of_nodup (hnodup.sublist hsub), hlength]
  · simpa only [List.mem_toFinset] using hsatisfied

end Quorum

end WitnessedLog
