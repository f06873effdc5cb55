import Mathlib.Data.Nat.Digits.Lemmas
import WitnessedLog.Proofs.Program.Decompiling
import WitnessedLog.Proofs.Program.Register

/-!
# Operands and their spellings

An operand is spelled by its digits in base 64, the first of which is not zero if there is
more than one, so no program says the same in fewer bytes.  The machine reads a spelling as
the one operation that uses the operand, as far as its register can hold it, and operands
spelled one after another are told by the whole.
-/

namespace WitnessedLog

namespace Program

namespace OperandClass

theorem operation_inj
    {use use' : OperandClass} {value value' : Nat}
    (h : use.operation value = use'.operation value') : use = use' ∧ value = value' := by
  cases use <;> cases use' <;> simp_all [operation]

theorem operation_ne_add (use : OperandClass) (value : Nat) : .add ≠ use.operation value := by
  cases use <;> simp [operation]

theorem operation_ne_unknown (use : OperandClass) (value : Nat) :
    .unknown ≠ use.operation value := by
  cases use <;> simp [operation]

end OperandClass

/-! ## Digits -/

theorem map_ofByte_continuations (value : Nat) :
    (continuations value).map Instruction.ofByte =
      (Nat.digits 64 value).reverse.map .continuation := by
  induction value using Nat.strongRecOn with
  | ind value ih =>
      rw [continuations]
      by_cases h : value = 0
      · rw [if_pos h, h]
        simp
      · have hlow : value % 64 < 64 := Nat.mod_lt value (by decide)
        rw [if_neg h, Nat.digits_def' (by decide) (Nat.pos_of_ne_zero h), List.map_append,
          ih (value / 64) (by omega), List.map_singleton, ofByte_continuation hlow,
          List.reverse_cons, List.map_append, List.map_singleton]

/-- The first digit of a number is not zero. -/
theorem head?_reverse_digits_ne_zero (value : Nat) :
    (Nat.digits 64 value).reverse.head? ≠ some 0 := by
  rw [List.head?_reverse]
  intro hzero
  have hne : value ≠ 0 := by
    rintro rfl
    simp at hzero
  have hdigits : Nat.digits 64 value ≠ [] := Nat.digits_ne_nil_iff_ne_zero.mpr hne
  rw [List.getLast?_eq_some_getLast hdigits, Option.some.injEq] at hzero
  exact Nat.getLast_digit_ne_zero 64 hne hzero

theorem operandLength_of_lt
    {value : Nat}
    (h : value < 64) : operandLength value = 1 := by
  rw [operandLength, if_pos h]

theorem operandLength_of_le
    {value : Nat}
    (h : 64 ≤ value) : operandLength value = operandLength (value / 64) + 1 := by
  rw [operandLength, if_neg (Nat.not_lt.mpr h)]

/-- As many bytes spell an operand as it has digits. -/
theorem operandLength_le_iff
    {value length : Nat} :
    operandLength value ≤ length + 1 ↔ value < 64 ^ (length + 1) := by
  induction length generalizing value with
  | zero =>
      rcases Nat.lt_or_ge value 64 with h | h
      · simp [operandLength_of_lt h, h]
      · have hpos := operandLength_pos (value / 64)
        rw [operandLength_of_le h]
        omega
  | succ length ih =>
      rcases Nat.lt_or_ge value 64 with h | h
      · have hpow : 64 ≤ 64 ^ (length + 1 + 1) := Nat.le_self_pow (by omega) 64
        rw [operandLength_of_lt h]
        omega
      · rw [operandLength_of_le h, Nat.add_le_add_iff_right, ih,
          Nat.div_lt_iff_lt_mul (by decide), ← Nat.pow_succ]

/-- The greatest operand of 64 bits takes up eleven bytes. -/
example : operandLength (2 ^ 64 - 1) = 11 := by
  cbv

/-- What a program says of one operand is bounded by the digits that it has bytes for. -/
theorem lt_of_operationsAfter
    {use : OperandClass} {value pending : Nat} {program : Bytes}
    (h : Listing.operationsAfter pending program = [use.operation value]) :
    value < (pending + 1) * 64 ^ program.length := by
  induction program generalizing pending with
  | nil => simp [Listing.operationsAfter] at h
  | cons b program ih =>
      have hgrow : (pending + 1) * 64 ^ (b :: program).length =
          (64 * pending + 64) * 64 ^ program.length := by
        rw [List.length_cons, Nat.pow_succ]
        ring
      have hpow : 1 ≤ 64 ^ program.length := Nat.one_le_pow _ _ (by decide)
      rw [hgrow]
      rcases ofByte_cases b with hadd | hunknown | ⟨payload, hlow, ⟨use', huse⟩ | hcontinues⟩
      · rw [Listing.operationsAfter, hadd] at h
        exact absurd (List.cons.inj h).1 (use.operation_ne_add value)
      · rw [Listing.operationsAfter, hunknown] at h
        exact absurd (List.cons.inj h).1 (use.operation_ne_unknown value)
      · -- The byte that uses an operand ends it.
        rw [Listing.operationsAfter_cons_use huse] at h
        obtain ⟨-, rfl⟩ := OperandClass.operation_inj (List.cons.inj h).1
        calc 64 * pending + payload < 64 * pending + 64 := by omega
          _ ≤ (64 * pending + 64) * 64 ^ program.length := Nat.le_mul_of_pos_right _ hpow
      · -- A continuation byte makes room for a digit.
        rw [Listing.operationsAfter, hcontinues] at h
        calc value < (64 * pending + payload + 1) * 64 ^ program.length := ih h
          _ ≤ (64 * pending + 64) * 64 ^ program.length :=
            Nat.mul_le_mul_right _ (by omega)

/-- No program says of an operand what its spelling says in fewer bytes. -/
theorem operandLength_le_of_operations
    {use : OperandClass} {value : Nat} {program : Bytes}
    (h : Listing.operations program = [use.operation value]) :
    operandLength value ≤ program.length := by
  have hne : program ≠ [] := by
    rintro rfl
    simp [Listing.operations, Listing.operationsAfter] at h
  obtain ⟨length, hlength⟩ := Nat.exists_eq_add_one.mpr (List.length_pos_iff.mpr hne)
  have hlt := lt_of_operationsAfter h
  rw [hlength] at hlt ⊢
  rw [operandLength_le_iff]
  omega

/-- An operand is spelled by its digits. -/
theorem map_ofByte_spell (use : OperandClass) (value : Nat) :
    (spell use.bits value).map Instruction.ofByte =
      (Nat.digits 64 (value / 64)).reverse.map .continuation ++ [use.instruction (value % 64)] := by
  have hlow : value % 64 < 64 := Nat.mod_lt value (by decide)
  rw [spell, List.map_append, map_ofByte_continuations, List.map_singleton, use.ofByte_bits hlow]

/-! ## Operands in a row -/

/-- The spellings of operands one after another. -/
def spellAll (operands : List (OperandClass × Nat)) : Bytes :=
  operands.flatMap fun (use, value) => spell use.bits value

theorem operations_spellAll (operands : List (OperandClass × Nat)) :
    Listing.operations (spellAll operands) =
      operands.map fun (use, value) => use.operation value := by
  induction operands with
  | nil => rfl
  | cons operand operands ih =>
      rw [spellAll, List.flatMap_cons, Listing.operations_spell, ← spellAll, ih, List.map_cons]

theorem spellAll_injective : Function.Injective spellAll := by
  intro operands operands' h
  have hoperations := congrArg Listing.operations h
  rw [operations_spellAll, operations_spellAll] at hoperations
  refine List.map_injective_iff.mpr ?_ hoperations
  rintro ⟨use, value⟩ ⟨use', value'⟩ hoperation
  obtain ⟨rfl, rfl⟩ := OperandClass.operation_inj hoperation
  rfl

/-- The spelling of an operand has the length that is known beforehand.  It consists of continuation
bytes and the byte that uses the operand, its first digit is not zero if there are more, and nothing
shorter says the same.  The machine executes it as one operation on what its register holds of the
operand, and operands in a row are told by their spellings. -/
theorem spell_reads_as_operand :
    (∀ (use : OperandClass) (value : Nat),
      (spell use.bits value).length = operandLength value ∧
      (∃ (high : List Nat) (low : Nat), (spell use.bits value).map Instruction.ofByte =
          high.map .continuation ++ [use.instruction low] ∧ high.head? ≠ some 0) ∧
      (∀ program, Listing.operations program = [use.operation value] →
        (spell use.bits value).length ≤ program.length) ∧
      (∀ witnessCount found stack,
        (⟨stack, 0⟩ : Machine).run witnessCount found (spell use.bits value) =
          Machine.perform witnessCount found stack (use.operation (value % 2 ^ 32))) ∧
      (value < 2 ^ 32 → ∀ witnessCount found stack,
        (⟨stack, 0⟩ : Machine).run witnessCount found (spell use.bits value) =
          Machine.perform witnessCount found stack (use.operation value))) ∧
    Function.Injective spellAll := by
  refine ⟨fun use value => ⟨length_spell use.bits value, ?_, ?_, ?_, ?_⟩, spellAll_injective⟩
  · exact ⟨_, _, map_ofByte_spell use value, head?_reverse_digits_ne_zero (value / 64)⟩
  · intro program hprogram
    rw [length_spell]
    exact operandLength_le_of_operations hprogram
  · intro witnessCount found stack
    exact Machine.run_spell witnessCount found stack use value
  · intro hfits witnessCount found stack
    exact Machine.run_spell_of_lt witnessCount found stack use hfits

end Program

end WitnessedLog
