import WitnessedLog.Proofs.CompiledPolicy.RoundTrip
import WitnessedLog.Proofs.Program.OperandReading

/-!
# Sums of a compiled policy stay within a byte

The values on the stack are not bounded by the ones that were pushed: a threshold of zero makes a
one of a zero.  They are bounded by the references that were folded into them, since a value that is
zero has cost a reference as well.  So each value counts for one at least, the values on the stack
count for no more than the references executed, and a program that fits a compiled policy has too
few of these for a sum beyond a byte.
-/

namespace WitnessedLog

namespace Program

/-- Whether an instruction pushes what was found for a witness. -/
def Instruction.isReference : Instruction → Bool
  | .witness _ => true
  | _ => false

/-- The number of references to witnesses in a program. -/
def references (program : Bytes) : Nat :=
  program.countP (fun b => (Instruction.ofByte b).isReference)

/-- The references that a value counts for. -/
def share (value : UInt8) : Nat :=
  max 1 value.toNat

/-- The references that the values on a stack count for. -/
def worth : Bytes → Nat
  | [] => 0
  | value :: stack => share value + worth stack

theorem one_le_share (value : UInt8) : 1 ≤ share value :=
  Nat.le_max_left 1 value.toNat

theorem toNat_le_share (value : UInt8) : value.toNat ≤ share value :=
  Nat.le_max_right 1 value.toNat

theorem share_of_bit
    {value : UInt8}
    (h : value = 0 ∨ value = 1) : share value = 1 := by
  rcases h with rfl | rfl
  · rfl
  · rfl

theorem share_add_le
    {x y : UInt8}
    (h : x.toNat + y.toNat < 256) : share (x + y) ≤ share x + share y := by
  have hsum : (x + y).toNat = x.toNat + y.toNat := by
    rw [UInt8.toNat_add]
    exact Nat.mod_eq_of_lt h
  rw [share, share, share, hsum]
  omega

namespace Machine

variable {witnessCount : Nat} {found : Bytes}

/-- Only a reference raises what the stack counts for, and by one at most. -/
theorem worth_step_le
    (hfound : ∀ value ∈ found, value = 0 ∨ value = 1)
    {machine next : Machine} {b : UInt8}
    (h : step witnessCount found machine b = some next) :
    worth next.stack ≤ worth machine.stack + references [b] := by
  obtain ⟨stack, pending⟩ := machine
  rw [references, List.countP_singleton]
  rw [step] at h
  cases hb : Instruction.ofByte b with
  | unknown => simp [hb] at h
  | add =>
      rcases stack with _ | ⟨x, _ | ⟨y, rest⟩⟩
      · simp [hb] at h
      · simp [hb] at h
      · simp only [hb, Option.ite_none_right_eq_some, Option.some.injEq] at h
        obtain ⟨hsum, rfl⟩ := h
        have hshare := share_add_le hsum
        simp only [worth]
        omega
  | witness payload =>
      simp only [hb, Option.ite_none_right_eq_some, Option.map_eq_some_iff] at h
      obtain ⟨-, value, hvalue, rfl⟩ := h
      have hshare := share_of_bit (hfound value (List.mem_of_getElem? hvalue))
      simp only [worth, hshare, Instruction.isReference, if_true]
      omega
  | threshold payload =>
      cases stack with
      | nil => simp [hb] at h
      | cons value rest =>
          -- The verdict counts for one, and so did the value before it, even if that was zero.
          simp only [hb, Option.some.injEq] at h
          subst h
          have hshare := one_le_share value
          have hverdict : share (if operand ⟨value :: rest, pending⟩ payload ≤ value.toUInt32
              then 1 else 0) = 1 :=
            share_of_bit (by split_ifs <;> simp)
          simp only [worth, hverdict]
          omega
  | continuation payload =>
      simp only [hb, Option.some.injEq] at h
      subst h
      exact Nat.le_add_right _ _

/-- A stack counts for no more than the references that a run has executed. -/
theorem worth_run_le
    (hfound : ∀ value ∈ found, value = 0 ∨ value = 1)
    {machine next : Machine} {program : Bytes}
    (h : machine.run witnessCount found program = some next) :
    worth next.stack ≤ worth machine.stack + references program := by
  induction program generalizing machine with
  | nil =>
      obtain rfl : machine = next := Option.some.inj h
      exact Nat.le_refl _
  | cons b program ih =>
      rw [run_cons, Option.bind_eq_some_iff] at h
      obtain ⟨middle, hstep, hrun⟩ := h
      have hfirst := worth_step_le hfound hstep
      have hrest := ih hrun
      have hcount : references (b :: program) = references [b] + references program := by
        rw [← List.singleton_append]
        exact List.countP_append
      omega

end Machine

end Program

namespace CompiledPolicy

open Program

/-- Whatever the program of a compiled policy, an addition that is reached with two values has room
for their sum, and the run goes on with it. -/
theorem additions_fit_byte
    (policy : CompiledPolicy) {found : Bytes}
    (hfound : ∀ value ∈ found, value = 0 ∨ value = 1)
    {front back : Bytes} (hprogram : policy.program = front ++ addByte :: back)
    {x y : UInt8} {stack : Bytes} {pending : UInt32}
    (hreached : Machine.start.run policy.witnesses.length found front =
      some ⟨x :: y :: stack, pending⟩) :
    x.toNat + y.toNat < 256 ∧
      Machine.start.run policy.witnesses.length found (front ++ [addByte]) =
        some ⟨(x + y) :: stack, 0⟩ := by
  have hworth : worth (x :: y :: stack) ≤ references front := by
    have hrun := Machine.worth_run_le hfound hreached
    simpa [Machine.start, worth] using hrun
  have hreferences : references front ≤ front.length := List.countP_le_length
  have hlength := policy.length_program
  rw [hprogram, List.length_append, List.length_cons] at hlength
  have hx := toNat_le_share x
  have hy := toNat_le_share y
  rw [worth, worth] at hworth
  have hsum : x.toNat + y.toNat < 256 := by omega
  refine ⟨hsum, ?_⟩
  rw [Machine.run_append_of_eq_some hreached, Machine.run_singleton, Machine.step,
    show Instruction.ofByte addByte = .add from rfl]
  exact if_pos hsum

/-- The program makes ones of three zeros and adds them up. -/
def sampleFreeOnes : CompiledPolicy where
  logs := []
  witnesses := [⟨List.replicate 32 1, List.length_replicate⟩]
  program := [0x40, 0x80, 0x40, 0x80, 0x01, 0x40, 0x80, 0x01, 0x83]
  logs_ascending := .nil
  witnesses_ascending := List.pairwise_singleton _ _
  length_logs := by decide
  length_witnesses := by decide
  length_program := by decide

theorem additions_fit_byte_sampleFreeOnes :
    let policy := sampleFreeOnes
    let front : Bytes := [0x40, 0x80, 0x40, 0x80, 0x01, 0x40, 0x80]
    ofBytes policy.toBytes = .ok policy ∧
      policy.program = front ++ addByte :: [0x83] ∧
      Machine.start.run 1 [0] front = some ⟨[1, 2], 0⟩ ∧
      Machine.start.run 1 [0] (front ++ [addByte]) = some ⟨[3], 0⟩ ∧
      policy.evaluate [0] = true := by
  intro policy front
  have hfound : ∀ value ∈ ([0] : Bytes), value = 0 ∨ value = 1 :=
    List.forall_mem_singleton.mpr (Or.inl rfl)
  have hprogram : policy.program = front ++ addByte :: [0x83] := rfl
  have hreached : Machine.start.run 1 [0] front = some ⟨[1, 2], 0⟩ := by decide
  have hfits := policy.additions_fit_byte hfound hprogram hreached
  exact ⟨ofBytes_toBytes policy, hprogram, hreached, hfits.2, by decide⟩

end CompiledPolicy

end WitnessedLog
