/-!
# Quorum rules

A quorum rule is a tree.  A leaf names a witness and asks for its cosignature; a group asks that at
least a threshold number of its members be satisfied.  The rule is generic in how witnesses are
named: policies name them by key hash, compiled programs by position.

Functions on rules are given by `Quorum.fold`, which replaces the leaves and groups of a tree by a
value and an operation on the values of the members.
-/

namespace WitnessedLog

/-- A rule that says which sets of witnesses suffice. -/
inductive Quorum (ω : Type) where
  /-- the witness must have cosigned -/
  | witness (name : ω)
  /-- at least `threshold` of the members must be satisfied -/
  | group (threshold : Nat) (members : List (Quorum ω))

namespace Quorum

variable {ω β : Type}

mutual

/-- Evaluate a rule from its leaves up. -/
def fold (leaf : ω → β) (node : Nat → List β → β) : Quorum ω → β
  | .witness name => leaf name
  | .group threshold members => node threshold (foldMembers leaf node members)

/-- Evaluate each rule of a list from its leaves up. -/
def foldMembers (leaf : ω → β) (node : Nat → List β → β) : List (Quorum ω) → List β
  | [] => []
  | member :: members => fold leaf node member :: foldMembers leaf node members

end

theorem foldMembers_eq_map
    (leaf : ω → β) (node : Nat → List β → β) (members : List (Quorum ω)) :
    foldMembers leaf node members = members.map (fold leaf node) := by
  induction members with
  | nil => rfl
  | cons member members ih => rw [foldMembers, ih, List.map_cons]

@[simp] theorem fold_witness
    (leaf : ω → β) (node : Nat → List β → β) (name : ω) :
    fold leaf node (.witness name) = leaf name := rfl

@[simp] theorem fold_group
    (leaf : ω → β) (node : Nat → List β → β) (threshold : Nat) (members : List (Quorum ω)) :
    fold leaf node (.group threshold members) = node threshold (members.map (fold leaf node)) := by
  rw [fold, foldMembers_eq_map]

/-- A property of all rules follows from its truth for leaves and for groups of rules that have it. -/
@[elab_as_elim] theorem induction
    {motive : Quorum ω → Prop}
    (witness : ∀ name, motive (.witness name))
    (group : ∀ threshold members, (∀ member ∈ members, motive member) →
      motive (.group threshold members)) :
    ∀ quorum, motive quorum
  | .witness name => witness name
  | .group threshold members =>
    group threshold members (fun member _ => induction witness group member)

/-- Whether the witnesses that are present satisfy a rule. -/
def isSatisfied (present : ω → Bool) : Quorum ω → Bool :=
  fold present (fun threshold results => decide (threshold ≤ results.countP id))

@[simp] theorem isSatisfied_witness
    (present : ω → Bool) (name : ω) :
    (witness name).isSatisfied present = present name := rfl

@[simp] theorem isSatisfied_group
    (present : ω → Bool) (threshold : Nat) (members : List (Quorum ω)) :
    (group threshold members).isSatisfied present =
      decide (threshold ≤ members.countP (isSatisfied present)) := by
  rw [isSatisfied, fold_group, List.countP_map]
  rfl

/-- The witnesses that a rule names, from left to right and with repetition. -/
def names : Quorum ω → List ω :=
  fold (fun name => [name]) (fun _ lists => lists.flatten)

@[simp] theorem names_witness (name : ω) : (witness name).names = [name] := rfl

@[simp] theorem names_group
    (threshold : Nat) (members : List (Quorum ω)) :
    (group threshold members).names = members.flatMap names := by
  rw [names, fold_group, List.flatMap_def]

/-- Whether a threshold suits a group of the given size: none of no members, or some of them. -/
def ThresholdFits (threshold size : Nat) : Prop :=
  (size = 0 ∧ threshold = 0) ∨ (1 ≤ threshold ∧ threshold ≤ size)

instance (threshold size : Nat) : Decidable (ThresholdFits threshold size) :=
  inferInstanceAs (Decidable (_ ∨ _))

/-- Whether every threshold of a rule suits its group. -/
def WellFormed : Quorum ω → Prop :=
  fold (fun _ => True)
    (fun threshold results => ThresholdFits threshold results.length ∧ ∀ result ∈ results, result)

@[simp] theorem wellFormed_witness (name : ω) : (witness name).WellFormed := trivial

@[simp] theorem wellFormed_group
    (threshold : Nat) (members : List (Quorum ω)) :
    (group threshold members).WellFormed ↔
      ThresholdFits threshold members.length ∧ ∀ member ∈ members, member.WellFormed := by
  rw [WellFormed, fold_group, List.length_map]
  exact and_congr_right' List.forall_mem_map

/-- The group of no members, which is always satisfied. -/
def unconditional : Quorum ω :=
  .group 0 []

/-- Whether a rule is the group of no members. -/
def isUnconditional : Quorum ω → Bool
  | .group 0 [] => true
  | _ => false

end Quorum

end WitnessedLog
