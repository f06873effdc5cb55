import Mathlib.Data.List.Perm.Basic
import WitnessedLog.Program.Listing
import WitnessedLog.Proofs.Program.OperandReading
import WitnessedLog.Proofs.Program.Verdict
import WitnessedLog.Proofs.Quorum.Rearrangement

/-!
# Reading a program back as a rule

A program is executed on the rules that its values stand for.  A reference to a witness
pushes a rule, an addition joins the rules that two sums count, and a threshold test makes
a group of those that it tests.  What the program for a rule leaves is the rule itself, up
to the order of members and to groups of one member, so no two other rules share a program.
-/

namespace WitnessedLog

namespace Program

/-! ## Rules in place of values -/

/-- Execute one operation on sums, each given by the rules that it counts. -/
def recover (stack : List (List (Quorum Nat))) : Operation → Option (List (List (Quorum Nat)))
  | .unknown => none
  | .witness id => some ([.witness id] :: stack)
  | .add =>
    match stack with
    | latter :: former :: stack => some ((former ++ latter) :: stack)
    | _ => none
  | .threshold k =>
    match stack with
    | members :: stack => some ([.group k members] :: stack)
    | [] => none

/-- The sums that a program leaves above those that are there. -/
def recoverAll (stack : List (List (Quorum Nat))) (program : Bytes) :
    Option (List (List (Quorum Nat))) :=
  (Listing.operations program).foldlM recover stack

/-- The rule that a program leaves on an empty stack. -/
def decompile (program : Bytes) : Option (Quorum Nat) :=
  match recoverAll [] program with
  | some [[rule]] => some rule
  | _ => none

/-- A block pushes the sum of the given rules, whatever comes before and after it. -/
def Recovers (block : Bytes) (rules : List (Quorum Nat)) : Prop :=
  ∀ stack rest, recoverAll stack (block ++ rest) = recoverAll (rules :: stack) rest

theorem Recovers.decompile_eq
    {block : Bytes} {rule : Quorum Nat}
    (h : Recovers block [rule]) : decompile block = some rule := by
  have hrun : recoverAll [] (block ++ []) = some [[rule]] := h [] []
  rw [List.append_nil] at hrun
  rw [decompile, hrun]

theorem recovers_witness (id : Nat) : Recovers (spell witnessClass id) [.witness id] := by
  intro stack rest
  exact congrArg (List.foldlM recover stack) (Listing.operations_spell .witness id rest)

theorem recoverAll_addByte
    (latter former : List (Quorum Nat)) (stack : List (List (Quorum Nat))) (rest : Bytes) :
    recoverAll (latter :: former :: stack) (addByte :: rest) =
      recoverAll ((former ++ latter) :: stack) rest := by
  rfl

theorem recoverAll_threshold
    (threshold : Nat) (members : List (Quorum Nat)) (stack : List (List (Quorum Nat)))
    (rest : Bytes) :
    recoverAll (members :: stack) (spell thresholdClass threshold ++ rest) =
      recoverAll ([.group threshold members] :: stack) rest := by
  exact congrArg (List.foldlM recover (members :: stack))
    (Listing.operations_spell .threshold threshold rest)

/-! ## The blocks of a group -/

/-- Blocks that follow a sum, with an addition after each, add their rules to it. -/
theorem recoverAll_additions
    {blocks : List Bytes} {rules : List (Quorum Nat)}
    (h : List.Forall₂ (fun block rule => Recovers block [rule]) blocks rules)
    (sum : List (Quorum Nat)) (stack : List (List (Quorum Nat))) (rest : Bytes) :
    recoverAll (sum :: stack) (blocks.flatMap (fun block => block ++ [addByte]) ++ rest) =
      recoverAll ((sum ++ rules) :: stack) rest := by
  induction h generalizing sum with
  | nil => rw [List.append_nil, List.flatMap_nil, List.nil_append]
  | @cons block rule blocks rules hblock _ ih =>
      rw [List.flatMap_cons, List.append_assoc, List.append_assoc, hblock, List.singleton_append,
        recoverAll_addByte, ih, List.append_assoc, List.singleton_append]

theorem recovers_addUp
    {blocks : List Bytes} {rules : List (Quorum Nat)}
    (h : List.Forall₂ (fun block rule => Recovers block [rule]) blocks rules)
    (hne : blocks ≠ []) :
    Recovers (addUp blocks) rules := by
  cases h with
  | nil => exact absurd rfl hne
  | cons hfirst hrest =>
      intro stack rest
      rw [addUp, List.append_assoc, hfirst, recoverAll_additions hrest, List.singleton_append]

/-! ## Whole rules -/

/-- A block stands for a rule if it leaves that rule, up to the order of members. -/
def StandsFor (block : Bytes) (quorum : Quorum Nat) : Prop :=
  ∃ rule, Recovers block [rule] ∧ rule.Reordered quorum

theorem exists_rules_of_standsFor
    {blocks : List Bytes} {quorums : List (Quorum Nat)}
    (h : List.Forall₂ StandsFor blocks quorums) :
    ∃ rules, List.Forall₂ (fun block rule => Recovers block [rule]) blocks rules ∧
      List.Forall₂ Quorum.Reordered rules quorums := by
  induction h with
  | nil => exact ⟨[], .nil, .nil⟩
  | cons hblock _ ih =>
      obtain ⟨rule, hrecovers, hreordered⟩ := hblock
      obtain ⟨rules, hblocks, hquorums⟩ := ih
      exact ⟨rule :: rules, .cons hrecovers hblocks, .cons hreordered hquorums⟩

/-- The order in which the blocks of a group are put is forgotten with that of its members. -/
theorem standsFor_ofGroup_of_two_le
    (threshold : Nat) {blocks : List Bytes} {quorums : List (Quorum Nat)}
    (h : List.Forall₂ StandsFor blocks quorums) (htwo : 2 ≤ blocks.length) :
    StandsFor (ofGroup threshold blocks) (.group threshold quorums) := by
  obtain ⟨sorted, hsorted, hquorums⟩ := List.perm_comp_forall₂ (sortBlocks_perm blocks) h
  obtain ⟨rules, hrules, hreordered⟩ := exists_rules_of_standsFor hsorted
  have hrecovers := recovers_addUp hrules (sortBlocks_ne_nil htwo)
  refine ⟨.group threshold rules, ?_, ?_⟩
  · intro stack rest
    rw [ofGroup_of_two_le threshold htwo, List.append_assoc, hrecovers, recoverAll_threshold]
  · exact (Quorum.Reordered.of_forall₂ threshold hreordered).trans
      (Quorum.Reordered.of_perm threshold hquorums)

/-- The program for a rule stands for the rule without its groups of one member. -/
theorem standsFor_ofQuorum
    {quorum : Quorum Nat}
    (hnonempty : quorum.NoEmptyGroup) :
    StandsFor (ofQuorum quorum) quorum.unwrapped := by
  induction quorum using Quorum.induction with
  | witness id => exact ⟨.witness id, recovers_witness id, .refl _⟩
  | group threshold members ih =>
      obtain ⟨hne, hmembers⟩ := (Quorum.noEmptyGroup_group threshold members).mp hnonempty
      rw [ofQuorum_group]
      by_cases hlone : members.length = 1
      · obtain ⟨member, rfl⟩ := List.length_eq_one_iff.mp hlone
        rw [Quorum.unwrapped_lone]
        exact ih member (by simp) (hmembers member (by simp))
      · have hpos : 0 < members.length := List.length_pos_iff.mpr hne
        have htwo : 2 ≤ (members.map ofQuorum).length := by
          rw [List.length_map]
          omega
        rw [Quorum.unwrapped_of_length_ne_one threshold hlone]
        refine standsFor_ofGroup_of_two_le threshold ?_ htwo
        rw [List.forall₂_map_left_iff, List.forall₂_map_right_iff, List.forall₂_same]
        intro member hmember
        exact ih member hmember (hmembers member hmember)

/-- Decompiling the program for a rule gives back the rule, up to the order of members and
without its groups of one member. -/
theorem exists_decompile_ofQuorum
    {quorum : Quorum Nat}
    (hnonempty : quorum.NoEmptyGroup) :
    ∃ rule, decompile (ofQuorum quorum) = some rule ∧ rule.Reordered quorum.unwrapped := by
  obtain ⟨rule, hrecovers, hreordered⟩ := standsFor_ofQuorum hnonempty
  exact ⟨rule, hrecovers.decompile_eq, hreordered⟩

/-- Members come back in the order of their blocks, and a group of one member is gone. -/
example :
    decompile (ofQuorum (.group 2 [.group 1 [.witness 2, .witness 0], .group 1 [.witness 70]])) =
      some (.group 2 [.witness 70, .group 1 [.witness 0, .witness 2]]) := by
  cbv

/-- Rules with the same program differ only in the order of members and in groups of one
member. -/
theorem unwrapped_reordered_of_ofQuorum_eq
    {a b : Quorum Nat}
    (ha : a.NoEmptyGroup) (hb : b.NoEmptyGroup) (h : ofQuorum a = ofQuorum b) :
    a.unwrapped.Reordered b.unwrapped := by
  obtain ⟨rule, hrule, hreordered⟩ := exists_decompile_ofQuorum ha
  obtain ⟨rule', hrule', hreordered'⟩ := exists_decompile_ofQuorum hb
  have hsame : rule = rule' := by
    rw [h, hrule'] at hrule
    exact (Option.some.inj hrule).symm
  exact hreordered.symm.trans (hsame ▸ hreordered')

end Program

end WitnessedLog
