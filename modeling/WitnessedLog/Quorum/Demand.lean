import WitnessedLog.Quorum

/-!
# How many witnesses a rule demands

The least number of witnesses that can satisfy a rule in which no witness occurs twice: a group is
satisfied most cheaply by those of its members that demand the fewest.
-/

namespace WitnessedLog

namespace Quorum

variable {ω : Type}

/-- The sum of the `count` least numbers of a list. -/
def leastSum (count : Nat) (numbers : List Nat) : Nat :=
  ((numbers.mergeSort (· ≤ ·)).take count).foldr (· + ·) 0

/-- The number of distinct witnesses that a rule demands. -/
def demand : Quorum ω → Nat :=
  fold (fun _ => 1) leastSum

@[simp] theorem demand_witness (name : ω) : (witness name).demand = 1 := rfl

@[simp] theorem demand_group
    (threshold : Nat) (members : List (Quorum ω)) :
    (group threshold members).demand = leastSum threshold (members.map demand) := by
  rw [demand, fold_group]

end Quorum

end WitnessedLog
