import WitnessedLog.Program.Operand

/-!
# Programs as listings

The documented meaning of a program, in two passes.  The first gathers continuation bytes and the
next instruction that uses an operand into one operation, whose operand can have any size; the
second executes the operations.  Nothing here is bounded by a register.
-/

namespace WitnessedLog

namespace Program

/-- An operation with its whole operand. -/
inductive Operation where
  | add
  | unknown
  | witness (id : Nat)
  | threshold (k : Nat)
  deriving DecidableEq

/-- The operation that uses a whole operand. -/
def OperandClass.operation : OperandClass → Nat → Operation
  | .witness => .witness
  | .threshold => .threshold

namespace Listing

/-- The operations of a program, after operand bits worth `pending`.  The next instruction that uses
an operand takes them, whatever stands in between.  Continuation bytes that no such instruction
follows belong to no operation. -/
def operationsAfter (pending : Nat) : Bytes → List Operation
  | [] => []
  | b :: rest =>
    match Instruction.ofByte b with
    | .add => .add :: operationsAfter pending rest
    | .unknown => .unknown :: operationsAfter pending rest
    | .witness payload => .witness (64 * pending + payload) :: operationsAfter 0 rest
    | .threshold payload => .threshold (64 * pending + payload) :: operationsAfter 0 rest
    | .continuation payload => operationsAfter (64 * pending + payload) rest

/-- The operations of a program. -/
def operations (program : Bytes) : List Operation :=
  operationsAfter 0 program

/-- Execute one operation on a stack, top first. -/
def execute (witnessCount : Nat) (found : Bytes) (stack : Bytes) : Operation → Option Bytes
  | .unknown => none
  | .add =>
    match stack with
    | x :: y :: rest => if x.toNat + y.toNat < 256 then some ((x + y) :: rest) else none
    | _ => none
  | .witness id =>
    if id < witnessCount then (found[id]?).map (· :: stack) else none
  | .threshold k =>
    match stack with
    | value :: rest => some ((if k ≤ value.toNat then 1 else 0) :: rest)
    | [] => none

/-- Whether the operations of a program leave exactly one value, and that value is one. -/
def holds (program : Bytes) (witnessCount : Nat) (found : Bytes) : Bool :=
  (operations program).foldlM (execute witnessCount found) [] == some [1]

end Listing

end Program

end WitnessedLog
