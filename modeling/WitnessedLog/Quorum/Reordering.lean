import WitnessedLog.Quorum

/-!
# Rules up to order and wrapping

The order in which the members of a group are listed does not matter to who satisfies it, and a group
of one member with threshold one asks for no more than the member does.  Two rules are reorderings of
each other if exchanging neighbouring members, at any depth, leads from one to the other.
-/

namespace WitnessedLog

namespace Quorum

variable {ω : Type}

/-- One rule becomes the other by exchanges of neighbouring members. -/
inductive Reordered : Quorum ω → Quorum ω → Prop where
  | refl (quorum : Quorum ω) : Reordered quorum quorum
  | trans {a b c : Quorum ω} : Reordered a b → Reordered b c → Reordered a c
  | swap (threshold : Nat) (front : List (Quorum ω)) (a b : Quorum ω) (back : List (Quorum ω)) :
    Reordered (.group threshold (front ++ a :: b :: back))
      (.group threshold (front ++ b :: a :: back))
  | member (threshold : Nat) (front : List (Quorum ω)) {a b : Quorum ω}
    (back : List (Quorum ω)) : Reordered a b →
      Reordered (.group threshold (front ++ a :: back)) (.group threshold (front ++ b :: back))

/-- A rule with every group of one member replaced by the member. -/
def unwrapped : Quorum ω → Quorum ω :=
  fold .witness fun threshold members =>
    match members with
    | [member] => member
    | members => .group threshold members

end Quorum

end WitnessedLog
