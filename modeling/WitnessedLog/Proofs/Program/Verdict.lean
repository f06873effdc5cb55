import Mathlib.Algebra.Order.BigOperators.Group.List
import Mathlib.Algebra.Order.Group.Nat
import WitnessedLog.Policy.Compile
import WitnessedLog.Proofs.Program.OperandReading
import WitnessedLog.Proofs.Quorum.Presence

/-!
# The verdict of a compiled rule

The program for a rule pushes one value, a one if the rule is satisfied and a zero
otherwise, whatever is on the stack already.  The blocks of a group leave such values one
after another, so their sum counts the members that are satisfied, in whatever order the
blocks were put.
-/

namespace WitnessedLog

namespace Program

/-- The value that stands for a verdict. -/
def verdictByte (verdict : Bool) : UInt8 :=
  if verdict then 1 else 0

@[simp] theorem toNat_verdictByte (verdict : Bool) :
    (verdictByte verdict).toNat = verdict.toNat := by
  cases verdict <;> rfl

/-- A block pushes its verdict on any stack and leaves nothing pending. -/
def Settles (witnessCount : Nat) (found block : Bytes) (verdict : Bool) : Prop :=
  ∀ stack, (⟨stack, 0⟩ : Machine).run witnessCount found block =
    some ⟨verdictByte verdict :: stack, 0⟩

variable {witnessCount : Nat} {found : Bytes}

/-- The verdict on which a block settles is the one that it gives as a program. -/
theorem Settles.holds_eq
    {block : Bytes} {verdict : Bool}
    (h : Settles witnessCount found block verdict) :
    holds block witnessCount found = verdict := by
  rw [holds, Machine.start, h []]
  cases verdict <;> rfl

/-! ## Adding up the blocks of a group -/

theorem run_addByte
    (stack : Bytes) (verdict : Bool) {count : Nat}
    (h : count + verdict.toNat < 256) :
    (⟨verdictByte verdict :: UInt8.ofNat count :: stack, 0⟩ : Machine).run
        witnessCount found [addByte] =
      some ⟨UInt8.ofNat (count + verdict.toNat) :: stack, 0⟩ := by
  have hcount : (UInt8.ofNat count).toNat = count := UInt8.toNat_ofNat_of_lt' (by
    change count < 256
    omega)
  have hsum : verdictByte verdict + UInt8.ofNat count = UInt8.ofNat (count + verdict.toNat) := by
    apply UInt8.toNat_inj.mp
    rw [UInt8.toNat_add, toNat_verdictByte, hcount, UInt8.toNat_ofNat', Nat.add_comm]
  rw [Machine.run_singleton, Machine.step, show Instruction.ofByte addByte = .add from rfl]
  simp only [toNat_verdictByte, hcount, hsum, Nat.add_comm verdict.toNat, h, if_true]

/-- Blocks that follow a count, with an addition after each, raise it by the number of those
that hold.  The count stays within a byte. -/
theorem run_additions
    {blocks : List Bytes} (stack : Bytes) {count : Nat}
    (hblocks : ∀ block ∈ blocks,
      Settles witnessCount found block (holds block witnessCount found))
    (h : count + blocks.length < 256) :
    (⟨UInt8.ofNat count :: stack, 0⟩ : Machine).run witnessCount found
        (blocks.flatMap (fun block => block ++ [addByte])) =
      some ⟨UInt8.ofNat
          (count + blocks.countP (fun block => holds block witnessCount found)) :: stack, 0⟩ := by
  induction blocks generalizing count with
  | nil => rfl
  | cons block blocks ih =>
      obtain ⟨hblock, hrest⟩ := List.forall_mem_cons.mp hblocks
      rw [List.length_cons] at h
      have hverdict := Bool.toNat_le (holds block witnessCount found)
      rw [List.flatMap_cons, List.append_assoc,
        Machine.run_append_of_eq_some (hblock (UInt8.ofNat count :: stack)),
        Machine.run_append_of_eq_some (run_addByte stack _ (by omega)),
        ih hrest (by omega), List.countP_cons]
      cases holds block witnessCount found with
      | false => rfl
      | true => simp [Nat.add_assoc, Nat.add_comm 1]

theorem run_addUp
    {blocks : List Bytes} (stack : Bytes)
    (hblocks : ∀ block ∈ blocks,
      Settles witnessCount found block (holds block witnessCount found))
    (hne : blocks ≠ []) (h : blocks.length < 256) :
    (⟨stack, 0⟩ : Machine).run witnessCount found (addUp blocks) =
      some ⟨UInt8.ofNat
          (blocks.countP (fun block => holds block witnessCount found)) :: stack, 0⟩ := by
  cases blocks with
  | nil => exact absurd rfl hne
  | cons first rest =>
      obtain ⟨hfirst, hrest⟩ := List.forall_mem_cons.mp hblocks
      rw [List.length_cons] at h
      have hverdict := Bool.toNat_le (holds first witnessCount found)
      have hbyte : verdictByte (holds first witnessCount found) =
          UInt8.ofNat (holds first witnessCount found).toNat := by
        cases holds first witnessCount found <;> rfl
      rw [addUp, Machine.run_append_of_eq_some (hfirst stack), hbyte,
        run_additions stack hrest (by omega), List.countP_cons, Nat.add_comm]
      cases holds first witnessCount found <;> rfl

/-- Blocks of several members are added up and tested. -/
theorem ofGroup_of_two_le
    (threshold : Nat) {blocks : List Bytes}
    (h : 2 ≤ blocks.length) :
    ofGroup threshold blocks = addUp (sortBlocks blocks) ++ spell thresholdClass threshold := by
  match blocks, h with
  | _ :: _ :: _, _ => rfl

theorem sortBlocks_ne_nil
    {blocks : List Bytes}
    (h : 2 ≤ blocks.length) : sortBlocks blocks ≠ [] := by
  apply List.length_pos_iff.mp
  rw [(sortBlocks_perm blocks).length_eq]
  exact Nat.lt_of_lt_of_le Nat.zero_lt_two h

theorem settles_ofGroup_of_two_le
    (threshold : Nat) {blocks : List Bytes}
    (hblocks : ∀ block ∈ blocks,
      Settles witnessCount found block (holds block witnessCount found))
    (htwo : 2 ≤ blocks.length) (h : blocks.length < 256) (hthreshold : threshold < 2 ^ 32) :
    Settles witnessCount found (ofGroup threshold blocks)
      (decide (threshold ≤ blocks.countP (fun block => holds block witnessCount found))) := by
  intro stack
  have hperm := sortBlocks_perm blocks
  have hsorted : ∀ block ∈ sortBlocks blocks,
      Settles witnessCount found block (holds block witnessCount found) :=
    fun block hblock => hblocks block (hperm.mem_iff.mp hblock)
  have hcount : blocks.countP (fun block => holds block witnessCount found) < 256 :=
    Nat.lt_of_le_of_lt List.countP_le_length h
  have hbyte : (UInt8.ofNat
      (blocks.countP (fun block => holds block witnessCount found))).toNat =
        blocks.countP (fun block => holds block witnessCount found) :=
    UInt8.toNat_ofNat_of_lt' hcount
  rw [ofGroup_of_two_le threshold htwo, Machine.run_append_of_eq_some
      (run_addUp stack hsorted (sortBlocks_ne_nil htwo) (hperm.length_eq ▸ h)), hperm.countP_eq]
  refine (Machine.run_spell_of_lt _ _ _ .threshold hthreshold).trans ?_
  simp only [Machine.perform, OperandClass.operation, Listing.execute, hbyte, verdictByte,
    decide_eq_true_eq, Option.map_some]

/-- The program for a group settles on whether enough of its blocks hold. -/
theorem settles_ofGroup
    {threshold : Nat} {blocks : List Bytes}
    (hblocks : ∀ block ∈ blocks,
      Settles witnessCount found block (holds block witnessCount found))
    (hne : blocks ≠ []) (hfits : Quorum.ThresholdFits threshold blocks.length)
    (h : blocks.length < 256) :
    Settles witnessCount found (ofGroup threshold blocks)
      (decide (threshold ≤ blocks.countP (fun block => holds block witnessCount found))) := by
  have hpos : 0 < blocks.length := List.length_pos_iff.mpr hne
  have hbounds : 1 ≤ threshold ∧ threshold ≤ blocks.length := by
    rcases hfits with ⟨hzero, -⟩ | hbounds
    · omega
    · exact hbounds
  by_cases hlone : blocks.length = 1
  · -- A lone member needs no test, since its threshold can only be one.
    obtain ⟨block, rfl⟩ := List.length_eq_one_iff.mp hlone
    have hone : threshold = 1 := by omega
    intro stack
    rw [ofGroup, hblocks block (by simp) stack, hone, List.countP_singleton]
    cases holds block witnessCount found <;> rfl
  · exact settles_ofGroup_of_two_le threshold hblocks (by omega) h (by omega)

/-! ## Whole rules -/

theorem operandLength_pos (value : Nat) : 1 ≤ operandLength value := by
  rw [operandLength]
  split
  · exact Nat.le_refl 1
  · exact Nat.le_add_left 1 _

/-- The program for a group is no shorter than that for any of its members. -/
theorem le_groupSize
    (threshold : Nat) {sizes : List Nat} {size : Nat}
    (h : size ∈ sizes) :
    size ≤ groupSize threshold sizes := by
  have hsum : size ≤ sizes.foldr (· + ·) 0 := List.le_sum_of_mem h
  match sizes, h, hsum with
  | [lone], h, _ => exact Nat.le_of_eq (List.mem_singleton.mp h)
  | _ :: _ :: _, _, hsum =>
      rw [groupSize]
      · omega
      · simp

/-- The program for a group of several members has more instructions than the group has
members. -/
theorem length_le_groupSize
    (threshold : Nat) {sizes : List Nat}
    (h : 2 ≤ sizes.length) :
    sizes.length ≤ groupSize threshold sizes := by
  have hoperand := operandLength_pos threshold
  match sizes, h with
  | _ :: _ :: _, _ =>
      rw [groupSize]
      · omega
      · simp

@[simp] theorem size_witness (id : Nat) : size (.witness id) = operandLength id := rfl

@[simp] theorem size_group
    (threshold : Nat) (members : List (Quorum Nat)) :
    size (.group threshold members) = groupSize threshold (members.map size) := by
  rw [size, Quorum.fold_group]

@[simp] theorem ofQuorum_witness (id : Nat) : ofQuorum (.witness id) = spell witnessClass id := rfl

@[simp] theorem ofQuorum_group
    (threshold : Nat) (members : List (Quorum Nat)) :
    ofQuorum (.group threshold members) = ofGroup threshold (members.map ofQuorum) := by
  rw [ofQuorum, Quorum.fold_group]

/-- A reference to a witness settles on what was found for it. -/
theorem settles_witness
    {id : Nat} {verdict : Bool}
    (hid : id < witnessCount) (hcount : witnessCount ≤ 255)
    (hfound : found[id]? = some (verdictByte verdict)) :
    Settles witnessCount found (spell witnessClass id) verdict := by
  intro stack
  refine (Machine.run_spell_of_lt _ _ _ .witness (by omega)).trans ?_
  rw [Machine.perform, OperandClass.operation, Listing.execute, if_pos hid, hfound]
  rfl

/-- The program for a rule settles on whether the rule is satisfied. -/
theorem settles_ofQuorum
    {present : Nat → Bool} {quorum : Quorum Nat}
    (hwellFormed : quorum.WellFormed) (hnonempty : quorum.NoEmptyGroup)
    (hsize : size quorum ≤ 255) (hcount : witnessCount ≤ 255)
    (hfound : ∀ id ∈ quorum.names,
      id < witnessCount ∧ found[id]? = some (verdictByte (present id))) :
    Settles witnessCount found (ofQuorum quorum) (quorum.isSatisfied present) := by
  induction quorum using Quorum.induction with
  | witness id =>
      obtain ⟨hid, hverdict⟩ := hfound id (by simp)
      exact settles_witness hid hcount hverdict
  | group threshold members ih =>
      obtain ⟨hfits, hwellFormed⟩ := (Quorum.wellFormed_group threshold members).mp hwellFormed
      obtain ⟨hne, hnonempty⟩ := (Quorum.noEmptyGroup_group threshold members).mp hnonempty
      rw [size_group] at hsize
      have hmember : ∀ member ∈ members,
          Settles witnessCount found (ofQuorum member) (member.isSatisfied present) := by
        intro member hmember
        apply ih member hmember (hwellFormed member hmember) (hnonempty member hmember)
        · exact Nat.le_trans (le_groupSize threshold (List.mem_map_of_mem hmember)) hsize
        · intro id hid
          exact hfound id (Quorum.mem_names_group hmember hid)
      have hlength : (members.map ofQuorum).length < 256 := by
        rw [List.length_map]
        by_cases htwo : 2 ≤ members.length
        · have hsizes : 2 ≤ (members.map size).length := by rwa [List.length_map]
          have hle := length_le_groupSize threshold hsizes
          rw [List.length_map] at hle
          omega
        · omega
      have hholds : (members.map ofQuorum).countP (fun block => holds block witnessCount found) =
          members.countP (Quorum.isSatisfied present) := by
        rw [List.countP_map]
        apply List.countP_congr
        intro member hm
        rw [Function.comp_apply, (hmember member hm).holds_eq]
      rw [ofQuorum_group, Quorum.isSatisfied_group, ← hholds]
      apply settles_ofGroup
      · intro block hblock
        obtain ⟨member, hm, rfl⟩ := List.mem_map.mp hblock
        rw [(hmember member hm).holds_eq]
        exact hmember member hm
      · exact fun hnil => hne (List.map_eq_nil_iff.mp hnil)
      · rw [List.length_map]
        exact hfits
      · exact hlength

end Program

end WitnessedLog
