import Mathlib.Algebra.Order.Group.Nat
import WitnessedLog.Program.Listing
import WitnessedLog.Proofs.Program.OperandReading

/-!
# Operands in a register of 32 bits

The machine carries out the operations that a program spells, each with the part of its operand
that is left in the register.  Where every operand fits, that is what the listing of the program
says.  Where one does not, the digits that are shifted out count for nothing, and a program can
hold by a witness that it does not name.
-/

namespace WitnessedLog

namespace Program

namespace Operation

/-- An operation as the machine can carry it out, with what is left of its operand. -/
def inRegister : Operation → Operation
  | .add => .add
  | .unknown => .unknown
  | .witness id => .witness (id % 2 ^ 32)
  | .threshold k => .threshold (k % 2 ^ 32)

/-- Whether the register holds the whole operand of an operation. -/
def Fits : Operation → Prop
  | .add => True
  | .unknown => True
  | .witness id => id < 2 ^ 32
  | .threshold k => k < 2 ^ 32

theorem Fits.inRegister_eq
    {operation : Operation}
    (h : operation.Fits) : operation.inRegister = operation := by
  cases operation with
  | add => rfl
  | unknown => rfl
  | witness id => exact congrArg witness (Nat.mod_eq_of_lt h)
  | threshold k => exact congrArg threshold (Nat.mod_eq_of_lt h)

end Operation

theorem OperandClass.inRegister_operation (use : OperandClass) (value : Nat) :
    (use.operation value).inRegister = use.operation (value % 2 ^ 32) := by
  cases use with
  | witness => rfl
  | threshold => rfl

namespace Listing

/-- Whether operations leave exactly one value, and that value is one. -/
def decides (witnessCount : Nat) (found : Bytes) (operations : List Operation) : Bool :=
  operations.foldlM (execute witnessCount found) [] == some [1]

variable {witnessCount : Nat} {found : Bytes}

theorem decides_append_of_eq_some
    {front : List Operation} {stack : Bytes}
    (h : front.foldlM (execute witnessCount found) [] = some stack) (back : List Operation) :
    decides witnessCount found (front ++ back) =
      (back.foldlM (execute witnessCount found) stack == some [1]) := by
  rw [decides, List.foldlM_append, h]
  rfl

/-- Operations that refer to a witness who does not exist fail, there or before. -/
theorem decides_of_witness_mem
    {operations : List Operation} {id : Nat}
    (hmem : .witness id ∈ operations) (hid : witnessCount ≤ id) :
    decides witnessCount found operations = false := by
  obtain ⟨front, back, rfl⟩ := List.append_of_mem hmem
  cases hfront : front.foldlM (execute witnessCount found) [] with
  | none =>
      rw [decides, List.foldlM_append, hfront]
      rfl
  | some stack =>
      rw [decides_append_of_eq_some hfront, List.foldlM_cons, execute,
        if_neg (Nat.not_lt.mpr hid)]
      rfl

end Listing

/-! ## Additions behind continuation bytes -/

namespace Machine

/-- No addition that a run from this state reaches finds operand bits in the register. -/
def AddsUnprefixed (machine : Machine) (witnessCount : Nat) (found program : Bytes) : Prop :=
  ∀ i < program.length, program[i]? = some addByte →
    ∀ reached ∈ machine.run witnessCount found (program.take i), reached.pending = 0

variable {witnessCount : Nat} {found : Bytes} {machine next : Machine} {b : UInt8}
  {program : Bytes}

theorem AddsUnprefixed.pending_eq_zero
    (h : machine.AddsUnprefixed witnessCount found (b :: program))
    (hb : Instruction.ofByte b = .add) : machine.pending = 0 :=
  h 0 (Nat.zero_lt_succ _) (congrArg some (eq_addByte_of_ofByte hb)) machine rfl

theorem AddsUnprefixed.of_step
    (h : machine.AddsUnprefixed witnessCount found (b :: program))
    (hstep : step witnessCount found machine b = some next) :
    next.AddsUnprefixed witnessCount found program := by
  intro i hi hadd reached hreached
  apply h (i + 1) (Nat.succ_lt_succ hi) hadd
  rw [List.take_succ_cons, run_cons, hstep]
  exact hreached

end Machine

variable (witnessCount : Nat) (found : Bytes)

/-- A machine that does on a byte what an operation does keeps in step with the operations, if it
keeps in step with the others from there. -/
theorem map_stack_run_cons
    {machine : Machine} {b : UInt8} {program : Bytes} {after : UInt32} {operation : Operation}
    {operations : List Operation}
    (hstep : Machine.step witnessCount found machine b =
      (Listing.execute witnessCount found machine.stack operation).map (⟨·, after⟩))
    (hrest : ∀ stack, Machine.step witnessCount found machine b = some ⟨stack, after⟩ →
      ((⟨stack, after⟩ : Machine).run witnessCount found program).map Machine.stack =
        operations.foldlM (Listing.execute witnessCount found) stack) :
    (machine.run witnessCount found (b :: program)).map Machine.stack =
      (operation :: operations).foldlM (Listing.execute witnessCount found) machine.stack := by
  rw [Machine.run_cons, List.foldlM_cons]
  cases hexecute : Listing.execute witnessCount found machine.stack operation with
  | none =>
      rw [hstep, hexecute]
      rfl
  | some stack =>
      rw [hexecute, Option.map_some] at hstep
      rw [hstep]
      exact hrest stack hstep

/-- What the machine leaves is what the operations leave whose operands it can hold. -/
theorem map_stack_run
    {stack : Bytes} {pending : Nat} {program : Bytes}
    (hadds : (⟨stack, UInt32.ofNat pending⟩ : Machine).AddsUnprefixed witnessCount found program) :
    ((⟨stack, UInt32.ofNat pending⟩ : Machine).run witnessCount found program).map Machine.stack =
      ((Listing.operationsAfter pending program).map Operation.inRegister).foldlM
        (Listing.execute witnessCount found) stack := by
  induction program generalizing stack pending with
  | nil => rfl
  | cons b program ih =>
      rcases ofByte_cases b with hadd | hunknown | ⟨payload, hlow, ⟨use, huse⟩ | hcontinues⟩
      · -- An addition clears the register, which is empty already.
        have hpending : UInt32.ofNat pending = 0 := hadds.pending_eq_zero hadd
        have hstep : Machine.step witnessCount found ⟨stack, UInt32.ofNat pending⟩ b =
            (Listing.execute witnessCount found stack .add).map (⟨·, UInt32.ofNat pending⟩) := by
          rw [Machine.step_add _ _ _ hadd, Machine.perform, hpending]
        rw [Listing.operationsAfter, hadd]
        exact map_stack_run_cons witnessCount found hstep
          fun stack hnext => ih (hadds.of_step hnext)
      · rw [Machine.run_cons, Machine.step, Listing.operationsAfter, hunknown]
        rfl
      · rw [Listing.operationsAfter_cons_use huse, List.map_cons,
          OperandClass.inRegister_operation]
        exact map_stack_run_cons witnessCount found
          (Machine.step_use witnessCount found stack huse hlow pending)
          fun stack hnext => ih (hadds.of_step hnext)
      · have hstep : Machine.step witnessCount found ⟨stack, UInt32.ofNat pending⟩ b =
            some ⟨stack, UInt32.ofNat (64 * pending + payload)⟩ := by
          rw [Machine.step, hcontinues, ← Machine.operand_ofNat stack pending hlow]
        rw [Machine.run_cons, hstep, Listing.operationsAfter, hcontinues]
        exact ih (hadds.of_step hstep)

/-- A program holds if its operations do with what is left of their operands. -/
theorem holds_eq_decides
    {program : Bytes}
    (hadds : Machine.start.AddsUnprefixed witnessCount found program) :
    holds program witnessCount found =
      Listing.decides witnessCount found
        ((Listing.operations program).map Operation.inRegister) := by
  rw [Listing.decides, Listing.operations, ← map_stack_run witnessCount found hadds, holds,
    Machine.start, show UInt32.ofNat 0 = 0 from rfl]
  cases (⟨[], 0⟩ : Machine).run witnessCount found program with
  | none => rfl
  | some machine => rfl

/-- The machine decides a program as its listing does, but for the digits of operands that its
register cannot hold, if no addition comes between continuation bytes and the instruction that
uses them.  By what is left of an operand, a reference to a witness who does not exist makes the
answer negative, and a threshold that the value on top does not reach puts a zero in the place of
that value. -/
theorem holds_eq_listing_inRegister
    {program : Bytes}
    (hadds : Machine.start.AddsUnprefixed witnessCount found program) :
    let operations := (Listing.operations program).map Operation.inRegister
    holds program witnessCount found = Listing.decides witnessCount found operations ∧
      ((∀ operation ∈ Listing.operations program, operation.Fits) →
        holds program witnessCount found = Listing.holds program witnessCount found) ∧
      (∀ id, .witness id ∈ operations → witnessCount ≤ id →
        holds program witnessCount found = false) ∧
      ∀ front k back value stack, operations = front ++ .threshold k :: back →
        front.foldlM (Listing.execute witnessCount found) [] = some (value :: stack) →
        value.toNat < k →
          holds program witnessCount found =
            (back.foldlM (Listing.execute witnessCount found) (0 :: stack) == some [1]) := by
  intro operations
  have hholds := holds_eq_decides witnessCount found hadds
  refine ⟨hholds, ?_, ?_, ?_⟩
  · intro hfits
    have hwhole : operations = Listing.operations program := by
      rw [← List.map_id (Listing.operations program)]
      exact List.map_congr_left fun operation hmem => (hfits operation hmem).inRegister_eq
    rw [hholds, Listing.holds]
    exact congrArg _ hwhole
  · intro id hmem hid
    rw [hholds]
    exact Listing.decides_of_witness_mem hmem hid
  · intro front k back value stack hoperations hfront hvalue
    have hoperations : (Listing.operations program).map Operation.inRegister =
        front ++ .threshold k :: back := hoperations
    rw [hholds, hoperations, Listing.decides_append_of_eq_some hfront, List.foldlM_cons,
      Listing.execute, if_neg (Nat.not_le.mpr hvalue)]
    rfl

/-- The operand of the second reference takes two bytes, and nothing is pending at the addition. -/
theorem holds_eq_listing_sampleTwo :
    let program : Bytes := [0x40, 0xc1, 0x41, 0x01, 0x82]
    let found : Bytes := List.replicate 66 1
    Machine.start.AddsUnprefixed 66 found program ∧
      Listing.operations program = [.witness 0, .witness 65, .add, .threshold 2] ∧
      holds program 66 found = Listing.holds program 66 found ∧
      holds program 66 found = true := by
  intro program found
  have hadds : Machine.start.AddsUnprefixed 66 found program := by
    rw [Machine.AddsUnprefixed]
    decide
  have hoperations : Listing.operations program =
      [.witness 0, .witness 65, .add, .threshold 2] := by decide
  have hfits : ∀ operation ∈ Listing.operations program, operation.Fits := by
    rw [hoperations]
    simp [Operation.Fits]
  exact ⟨hadds, hoperations, (holds_eq_listing_inRegister 66 found hadds).2.1 hfits, by decide⟩

/-- An addition between continuation bytes and the instruction that uses them clears the register,
and what is left of the operand is another one. -/
example :
    let program : Bytes := [0x40, 0x40, 0xc1, 0x01, 0x82]
    Listing.operations program = [.witness 0, .witness 0, .add, .threshold 66] ∧
      holds program 1 [1] = true ∧ Listing.holds program 1 [1] = false := by
  decide

/-- The register loses the one digit of this operand that is not zero, so a program can hold by a
witness it does not name. -/
theorem holds_by_unnamed_witness :
    let program : Bytes := [0xc4, 0xc0, 0xc0, 0xc0, 0xc0, 0x40]
    Listing.operations program = [.witness (2 ^ 32)] ∧
      holds program 1 [1] = true ∧ Listing.holds program 1 [1] = false := by
  decide

end Program

end WitnessedLog
