import WitnessedLog.Policy.Text

/-!
# Writing policies

A policy is written with one line for each log, one for each witness under a name of its own, one for
each group after those of its members, and a last one for the quorum.  Only the group of no members
has no line, because `none` is its name.
-/

namespace WitnessedLog

namespace Policy

/-- Whether a text can stand as one word of a directive. -/
def isWord (text : String) : Bool :=
  text ≠ "" && text.toList.all (fun c => !Text.isBlank c && c ≠ '#')

/-- Names to write with: one for each witness, and for the groups one after the other. -/
structure NameChoice where
  witness : KeyHash → String
  group : Nat → String

namespace NameChoice

/-- The names are words, differ from each other, and none of them is `none`. -/
structure Fresh (names : NameChoice) : Prop where
  isWord_witness : ∀ witness, isWord (names.witness witness)
  isWord_group : ∀ number, isWord (names.group number)
  witness_ne_none : ∀ witness, names.witness witness ≠ "none"
  group_ne_none : ∀ number, names.group number ≠ "none"
  witness_injective : ∀ a b, names.witness a = names.witness b → a = b
  group_injective : ∀ m n, names.group m = names.group n → m = n
  witness_ne_group : ∀ witness number, names.witness witness ≠ names.group number

/-- Witnesses by their key hashes, and numbered groups. -/
def plain : NameChoice :=
  ⟨fun witness => witness.toHex, fun number => "group-" ++ number.repr⟩

end NameChoice

/-- The directives that define rules, the names that the rules then have, and the number of the next
group. -/
structure Definitions (ν : Type) where
  directives : List (List String)
  names : ν
  next : Nat

/-- Define rules one after the other. -/
def defineAll : List (Nat → Definitions String) → Nat → Definitions (List String)
  | [], next => ⟨[], [], next⟩
  | define :: rest, next =>
    let first := define next
    let others := defineAll rest first.next
    ⟨first.directives ++ others.directives, first.names :: others.names, others.next⟩

/-- Define a group once its members are defined. -/
def defineGroup (names : NameChoice) (threshold : Nat)
    (members : List (Nat → Definitions String)) (next : Nat) : Definitions String :=
  if members.isEmpty then ⟨[], "none", next⟩
  else
    let defined := defineAll members next
    let name := names.group defined.next
    ⟨defined.directives ++ ["group" :: name :: threshold.repr :: defined.names], name,
      defined.next + 1⟩

/-- The directives that define a rule. -/
def define (names : NameChoice) : Quorum KeyHash → Nat → Definitions String :=
  Quorum.fold (fun witness next => ⟨[], names.witness witness, next⟩) (defineGroup names)

/-- The directive for a log. -/
def logDirective (log : Entity) : List String :=
  "log" :: log.publicKey.toHex :: log.url.toList

/-- The directive for a witness. -/
def witnessDirective (names : NameChoice) (witness : Entity) : List String :=
  "witness" :: names.witness witness.name :: witness.publicKey.toHex :: witness.url.toList

/-- The directives of a policy. -/
def directives (names : NameChoice) (policy : Policy) : List (List String) :=
  let quorum := define names policy.quorum 0
  policy.logs.values.map logDirective ++ policy.witnesses.values.map (witnessDirective names)
    ++ quorum.directives ++ [["quorum", quorum.names]]

/-- The text of a policy, written with the given names. -/
def toText (names : NameChoice) (policy : Policy) : String :=
  String.join ((policy.directives names).map (fun words => " ".intercalate words ++ "\n"))

end Policy

end WitnessedLog
