import WitnessedLog.Bytes

/-!
# Instructions and their operands

A quorum program is a string of one-byte instructions.  The top two bits of a byte select its class
and the low six bits are its payload.  An operand that needs more than six bits is spelled in base 64:
all groups but the last are carried by continuation bytes, most significant group first, and the
last one by the instruction that uses the operand.
-/

namespace WitnessedLog

namespace Program

/-- The byte that pops two values and pushes their sum. -/
def addByte : UInt8 := 0x01

/-- The class bits of a reference to a witness. -/
def witnessClass : UInt8 := 0x40

/-- The class bits of a threshold test. -/
def thresholdClass : UInt8 := 0x80

/-- The class bits of a continuation byte. -/
def continuationClass : UInt8 := 0xc0

/-- What a byte of a program asks for. -/
inductive Instruction where
  /-- pop two values and push their sum -/
  | add
  /-- no defined meaning -/
  | unknown
  /-- push the value found for a witness -/
  | witness (payload : Nat)
  /-- pop a value and push whether it reaches the operand -/
  | threshold (payload : Nat)
  /-- six more bits of the operand to come -/
  | continuation (payload : Nat)
  deriving DecidableEq

/-- The instruction that a byte spells. -/
def Instruction.ofByte (b : UInt8) : Instruction :=
  let payload := b.toNat % 64
  match b.toNat / 64 with
  | 0 => if b = addByte then .add else .unknown
  | 1 => .witness payload
  | 2 => .threshold payload
  | _ => .continuation payload

/-- What uses an operand. -/
inductive OperandClass where
  /-- a reference to a witness -/
  | witness
  /-- a threshold test -/
  | threshold
  deriving DecidableEq

namespace OperandClass

/-- The class bits of the byte that uses the operand. -/
def bits : OperandClass → UInt8
  | .witness => witnessClass
  | .threshold => thresholdClass

/-- The instruction that uses an operand and carries its last digit. -/
def instruction : OperandClass → Nat → Instruction
  | .witness => .witness
  | .threshold => .threshold

end OperandClass

/-- The number of bytes that spell an operand: one for each base-64 digit. -/
def operandLength (value : Nat) : Nat :=
  if value < 64 then 1 else operandLength (value / 64) + 1
termination_by value

/-- The continuation bytes for all base-64 digits of a number. -/
def continuations (value : Nat) : Bytes :=
  if value = 0 then []
  else continuations (value / 64) ++ [continuationClass ||| UInt8.ofNat (value % 64)]
termination_by value

/-- The bytes that spell an operand for an instruction of the given class. -/
def spell (classBits : UInt8) (value : Nat) : Bytes :=
  continuations (value / 64) ++ [classBits ||| UInt8.ofNat (value % 64)]

/-- The number of bytes is known before they are written. -/
theorem length_spell (classBits : UInt8) (value : Nat) :
    (spell classBits value).length = operandLength value := by
  simp only [spell, List.length_append, List.length_singleton]
  induction value using Nat.strongRecOn with
  | ind value ih =>
    rw [operandLength, continuations]
    by_cases h : value < 64
    · simp [h, show value / 64 = 0 by omega]
    · have hne : value / 64 ≠ 0 := by omega
      simp only [h, hne, if_false, List.length_append, List.length_singleton]
      rw [ih (value / 64) (by omega)]

end Program

end WitnessedLog
