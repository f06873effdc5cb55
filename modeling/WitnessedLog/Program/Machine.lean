import WitnessedLog.Program.Operand

/-!
# The quorum machine

A machine with a stack of bytes evaluates quorum programs.  Continuation bytes collect in a register
of 32 bits, from which bits shifted out at the top are lost; the next instruction of another class
consumes it.  A program that cannot go on is a negative answer and not an error: an unknown
instruction, a witness that does not exist, a missing value or a sum beyond a byte all count as "no
quorum".
-/

namespace WitnessedLog

namespace Program

/-- The state of the machine. -/
structure Machine where
  /-- the stack, top first -/
  stack : Bytes
  /-- the operand bits collected so far -/
  pending : UInt32
  deriving DecidableEq

namespace Machine

/-- The machine before its first instruction. -/
def start : Machine :=
  ⟨[], 0⟩

/-- The collected operand bits, followed by six more. -/
def operand (machine : Machine) (payload : Nat) : UInt32 :=
  (machine.pending <<< 6) ||| UInt32.ofNat payload

/-- Execute one byte of a program, given the number of witnesses and what was found for each. -/
def step (witnessCount : Nat) (found : Bytes) (machine : Machine) (b : UInt8) : Option Machine :=
  match Instruction.ofByte b with
  | .unknown => none
  | .add =>
    match machine.stack with
    | x :: y :: rest =>
      if x.toNat + y.toNat < 256 then some ⟨(x + y) :: rest, 0⟩ else none
    | _ => none
  | .witness payload =>
    let id := (machine.operand payload).toNat
    if id < witnessCount then (found[id]?).map (fun value => ⟨value :: machine.stack, 0⟩)
    else none
  | .threshold payload =>
    match machine.stack with
    | value :: rest =>
      some ⟨(if machine.operand payload ≤ value.toUInt32 then 1 else 0) :: rest, 0⟩
    | [] => none
  | .continuation payload => some ⟨machine.stack, machine.operand payload⟩

/-- Execute a program from a given state. -/
def run (machine : Machine) (witnessCount : Nat) (found : Bytes) (program : Bytes) :
    Option Machine :=
  program.foldlM (step witnessCount found) machine

end Machine

/-- Whether a program ends with exactly one value on the stack, and that value is one. -/
def holds (program : Bytes) (witnessCount : Nat) (found : Bytes) : Bool :=
  match Machine.start.run witnessCount found program with
  | some machine => machine.stack == [1]
  | none => false

end Program

end WitnessedLog
