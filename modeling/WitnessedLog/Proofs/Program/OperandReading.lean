import Mathlib.Algebra.Order.Group.Nat
import WitnessedLog.Program.Listing
import WitnessedLog.Program.Machine

/-!
# How operands are read

An operand is spelled by continuation bytes and the instruction that uses it, and what uses it
makes no difference to how it is read.  A listing has the spelling as one operation.  A machine
with nothing pending executes it as that operation, on the number that its register can hold.
-/

namespace WitnessedLog

namespace Program

/-! ## The bytes of an operand -/

theorem OperandClass.ofByte_bits
    (use : OperandClass) {payload : Nat}
    (h : payload < 64) :
    Instruction.ofByte (use.bits ||| UInt8.ofNat payload) = use.instruction payload := by
  cases use with
  | witness =>
      revert payload
      decide
  | threshold =>
      revert payload
      decide

theorem ofByte_continuation
    {payload : Nat}
    (h : payload < 64) :
    Instruction.ofByte (continuationClass ||| UInt8.ofNat payload) = .continuation payload := by
  revert payload
  decide

/-- A byte spells one of the instructions without an operand, or carries one base-64 digit of an
operand. -/
theorem ofByte_cases (b : UInt8) :
    Instruction.ofByte b = .add ∨ Instruction.ofByte b = .unknown ∨
      ∃ payload, payload < 64 ∧
        ((∃ use : OperandClass, Instruction.ofByte b = use.instruction payload) ∨
          Instruction.ofByte b = .continuation payload) := by
  have hlow : b.toNat % 64 < 64 := Nat.mod_lt _ (by decide)
  rw [Instruction.ofByte]
  split
  · split
    · exact .inl rfl
    · exact .inr (.inl rfl)
  · exact .inr (.inr ⟨_, hlow, .inl ⟨.witness, rfl⟩⟩)
  · exact .inr (.inr ⟨_, hlow, .inl ⟨.threshold, rfl⟩⟩)
  · exact .inr (.inr ⟨_, hlow, .inr rfl⟩)

/-- Only one byte spells an addition. -/
theorem eq_addByte_of_ofByte
    {b : UInt8}
    (h : Instruction.ofByte b = .add) : b = addByte := by
  rw [Instruction.ofByte] at h
  split at h
  · split at h
    · assumption
    · cases h
  all_goals cases h

/-! ## Operands in listings -/

namespace Listing

/-- The instruction that uses an operand takes all that is pending. -/
theorem operationsAfter_cons_use
    {b : UInt8} {use : OperandClass} {payload : Nat}
    (h : Instruction.ofByte b = use.instruction payload) (pending : Nat) (rest : Bytes) :
    operationsAfter pending (b :: rest) =
      use.operation (64 * pending + payload) :: operationsAfter 0 rest := by
  rw [operationsAfter, h]
  cases use with
  | witness => rfl
  | threshold => rfl

theorem operationsAfter_continuations (value : Nat) (rest : Bytes) :
    operationsAfter 0 (continuations value ++ rest) = operationsAfter value rest := by
  induction value using Nat.strongRecOn generalizing rest with
  | ind value ih =>
      rw [continuations]
      by_cases h : value = 0
      · rw [if_pos h, h]
        rfl
      · have hlow : value % 64 < 64 := Nat.mod_lt value (by decide)
        rw [if_neg h, List.append_assoc, ih (value / 64) (by omega), List.singleton_append,
          operationsAfter, ofByte_continuation hlow]
        simp only [Nat.div_add_mod]

theorem operations_spell (use : OperandClass) (value : Nat) (rest : Bytes) :
    operations (spell use.bits value ++ rest) = use.operation value :: operations rest := by
  have hlow : value % 64 < 64 := Nat.mod_lt value (by decide)
  rw [operations, spell, List.append_assoc, operationsAfter_continuations, List.singleton_append,
    operationsAfter_cons_use (use.ofByte_bits hlow), Nat.div_add_mod, operations]

end Listing

namespace Machine

variable (witnessCount : Nat) (found stack : Bytes)

/-! ## Running one part of a program after another -/

theorem run_cons
    (machine : Machine) (b : UInt8) (program : Bytes) :
    machine.run witnessCount found (b :: program) =
      (step witnessCount found machine b).bind
          (fun machine => machine.run witnessCount found program) := rfl

theorem run_append
    (machine : Machine) (front back : Bytes) :
    machine.run witnessCount found (front ++ back) =
      (machine.run witnessCount found front).bind
          (fun machine => machine.run witnessCount found back) := by
  rw [run, List.foldlM_append]
  rfl

/-- What runs to a state runs on from there. -/
theorem run_append_of_eq_some
    {witnessCount : Nat} {found : Bytes} {machine next : Machine} {front : Bytes}
    (h : machine.run witnessCount found front = some next) (back : Bytes) :
    machine.run witnessCount found (front ++ back) = next.run witnessCount found back := by
  rw [run_append, h, Option.bind_some]

theorem run_singleton
    (machine : Machine) (b : UInt8) :
    machine.run witnessCount found [b] = step witnessCount found machine b := by
  rw [run_cons]
  exact Option.bind_fun_some _

/-! ## The register -/

/-- The register shifts by one base-64 digit and takes in the next one. -/
theorem operand_ofNat
    (high : Nat) {low : Nat}
    (h : low < 64) :
    (⟨stack, UInt32.ofNat high⟩ : Machine).operand low = UInt32.ofNat (64 * high + low) := by
  apply UInt32.toNat_inj.mp
  have hshift : (UInt32.ofNat high <<< 6).toNat = 2 ^ 6 * (high % 2 ^ 26) := by
    rw [UInt32.toNat_shiftLeft, UInt32.toNat_ofNat', Nat.shiftLeft_eq]
    change high % 2 ^ 32 * 2 ^ 6 % 2 ^ 32 = 2 ^ 6 * (high % 2 ^ 26)
    omega
  have hlow : (UInt32.ofNat low).toNat = low := UInt32.toNat_ofNat_of_lt' (by
    change low < 2 ^ 32
    omega)
  rw [operand, UInt32.toNat_or, hshift, hlow, ← Nat.two_pow_add_eq_or_of_lt (i := 6) h,
    UInt32.toNat_ofNat']
  omega

/-- The continuation bytes of a number put it into the register. -/
theorem run_continuations (value : Nat) :
    (⟨stack, 0⟩ : Machine).run witnessCount found (continuations value) =
      some ⟨stack, UInt32.ofNat value⟩ := by
  induction value using Nat.strongRecOn with
  | ind value ih =>
      rw [continuations]
      by_cases h : value = 0
      · rw [if_pos h, h]
        rfl
      · have hlow : value % 64 < 64 := Nat.mod_lt value (by decide)
        rw [if_neg h, run_append_of_eq_some (ih (value / 64) (by omega)), run_singleton, step,
          ofByte_continuation hlow]
        simp only [operand_ofNat stack (value / 64) hlow, Nat.div_add_mod]

/-! ## Whole operands -/

/-- Carry out one operation, with nothing pending before it or after it. -/
def perform (stack : Bytes) (operation : Operation) : Option Machine :=
  (Listing.execute witnessCount found stack operation).map (⟨·, 0⟩)

theorem step_add
    (machine : Machine) {b : UInt8}
    (h : Instruction.ofByte b = .add) :
    step witnessCount found machine b = perform witnessCount found machine.stack .add := by
  obtain ⟨stack, pending⟩ := machine
  rw [step, h, perform]
  rcases stack with _ | ⟨x, _ | ⟨y, rest⟩⟩
  · rfl
  · rfl
  · simp only [Listing.execute]
    split_ifs
    · rfl
    · rfl

/-- The instruction that uses an operand is carried out on what the register holds of it. -/
theorem step_use
    {b : UInt8} {use : OperandClass} {low : Nat}
    (h : Instruction.ofByte b = use.instruction low) (hlow : low < 64) (high : Nat) :
    step witnessCount found ⟨stack, UInt32.ofNat high⟩ b =
      perform witnessCount found stack (use.operation ((64 * high + low) % 2 ^ 32)) := by
  rw [step, h]
  cases use with
  | witness =>
      simp only [OperandClass.instruction, OperandClass.operation, perform, Listing.execute,
        operand_ofNat stack high hlow, UInt32.toNat_ofNat']
      split_ifs
      · rw [Option.map_map]
        rfl
      · rfl
  | threshold =>
      cases stack with
      | nil => rfl
      | cons value stack =>
          simp only [OperandClass.instruction, OperandClass.operation, perform, Listing.execute,
            operand_ofNat (value :: stack) high hlow, UInt32.le_iff_toNat_le, UInt32.toNat_ofNat',
            UInt8.toNat_toUInt32, Option.map_some]

/-- A spelled operand is executed as one operation, on what the register holds of it. -/
theorem run_spell (use : OperandClass) (value : Nat) :
    (⟨stack, 0⟩ : Machine).run witnessCount found (spell use.bits value) =
      perform witnessCount found stack (use.operation (value % 2 ^ 32)) := by
  have hlow : value % 64 < 64 := Nat.mod_lt value (by decide)
  rw [spell, run_append_of_eq_some (run_continuations witnessCount found stack (value / 64)),
    run_singleton, step_use witnessCount found stack (use.ofByte_bits hlow) hlow,
    Nat.div_add_mod]

theorem run_spell_of_lt
    (use : OperandClass) {value : Nat}
    (h : value < 2 ^ 32) :
    (⟨stack, 0⟩ : Machine).run witnessCount found (spell use.bits value) =
      perform witnessCount found stack (use.operation value) := by
  rw [run_spell, Nat.mod_eq_of_lt h]

end Machine

end Program

end WitnessedLog
