import WitnessedLog.CompiledPolicy
import WitnessedLog.Policy.Text

/-!
# Compiling policies

A quorum rule becomes a program that leaves one if the rule is satisfied and zero otherwise.  A group
is compiled to the blocks of its members, added up, and a threshold test; a lone member needs
neither.  Blocks are put in order, shorter ones first and equally long ones by their bytes, so the
program does not depend on the order in which members were listed.  The size of the program is known
before it is written.
-/

namespace WitnessedLog

/-- Why a policy has no compiled form. -/
inductive CompileError where
  | tooManyLogs (count : Nat)
  | tooManyWitnesses (count : Nat)
  | quorumTooComplex (size : Nat)
  | emptyGroup
  | unknownWitness (witness : KeyHash)
  | policy (cause : PolicyError)
  deriving DecidableEq

/-- The sentence shown for a compilation error. -/
def CompileError.message : CompileError → String
  | .tooManyLogs count => s!"Policy lists {count} logs, can have at most 255."
  | .tooManyWitnesses count => s!"Policy lists {count} witnesses, can have at most 255."
  | .quorumTooComplex size =>
    s!"Policy quorum too complex, {size} instructions, can have at most 255."
  | .emptyGroup => "empty quorum group"
  | .unknownWitness witness =>
    "witness " ++ witness.toHex ++ " referenced in quorum but missing from policy"
  | .policy cause => cause.message

namespace Program

/-- The order of blocks: shorter ones first, and equally long ones by their bytes. -/
def blockBefore (a b : Bytes) : Bool :=
  a.length < b.length || (a.length == b.length && decide (a ≤ b))

/-- Put a block where it belongs among ordered blocks. -/
def insertBlock (block : Bytes) : List Bytes → List Bytes
  | [] => [block]
  | first :: rest =>
    if blockBefore block first then block :: first :: rest else first :: insertBlock block rest

/-- Blocks in order. -/
def sortBlocks (blocks : List Bytes) : List Bytes :=
  blocks.foldr insertBlock []

/-- The blocks one after another, with an addition after each but the first. -/
def addUp : List Bytes → Bytes
  | [] => []
  | first :: rest => first ++ rest.flatMap (fun block => block ++ [addByte])

/-- The size of the program for a group, given those of its members. -/
def groupSize (threshold : Nat) : List Nat → Nat
  | [size] => size
  | sizes => sizes.foldr (· + ·) 0 + (sizes.length - 1) + operandLength threshold

/-- The program for a group, given those of its members. -/
def ofGroup (threshold : Nat) : List Bytes → Bytes
  | [block] => block
  | blocks => addUp (sortBlocks blocks) ++ spell thresholdClass threshold

/-- The size of the program for a rule over numbered witnesses. -/
def size : Quorum Nat → Nat :=
  Quorum.fold operandLength groupSize

/-- The program for a rule over numbered witnesses. -/
def ofQuorum : Quorum Nat → Bytes :=
  Quorum.fold (spell witnessClass) ofGroup

theorem insertBlock_perm
    (block : Bytes) (blocks : List Bytes) :
    (insertBlock block blocks).Perm (block :: blocks) := by
  induction blocks with
  | nil => exact List.Perm.refl _
  | cons first rest ih =>
    unfold insertBlock
    split
    · exact List.Perm.refl _
    · exact (ih.cons first).trans (List.Perm.swap block first rest)

theorem sortBlocks_perm (blocks : List Bytes) : (sortBlocks blocks).Perm blocks := by
  induction blocks with
  | nil => exact List.Perm.refl _
  | cons block blocks ih => exact (insertBlock_perm block (sortBlocks blocks)).trans (ih.cons block)

theorem length_addUp (blocks : List Bytes) :
    (addUp blocks).length =
      (blocks.map List.length).foldr (· + ·) 0 + (blocks.length - 1) := by
  cases blocks with
  | nil => rfl
  | cons first rest =>
    induction rest with
    | nil => simp [addUp]
    | cons block rest ih =>
      simp only [addUp, List.length_append, List.flatMap_cons, List.map_cons, List.foldr_cons,
        List.length_cons, List.length_nil] at ih ⊢
      omega

theorem length_ofGroup (threshold : Nat) (blocks : List Bytes) :
    (ofGroup threshold blocks).length = groupSize threshold (blocks.map List.length) := by
  have hlength : (addUp (sortBlocks blocks) ++ spell thresholdClass threshold).length =
      (blocks.map List.length).foldr (· + ·) 0 + (blocks.length - 1) +
        operandLength threshold := by
    have hperm := sortBlocks_perm blocks
    have hsum : ((sortBlocks blocks).map List.length).foldr (· + ·) 0 =
        (blocks.map List.length).foldr (· + ·) 0 := (hperm.map List.length).sum_nat
    rw [List.length_append, length_addUp, length_spell, hperm.length_eq, hsum]
  match blocks, hlength with
  | [], hlength => simpa [ofGroup, groupSize] using hlength
  | [block], _ => rfl
  | first :: second :: rest, hlength => simpa [ofGroup, groupSize] using hlength

/-- The size is the length of the program. -/
theorem length_ofQuorum (quorum : Quorum Nat) : (ofQuorum quorum).length = size quorum := by
  induction quorum using Quorum.induction with
  | witness id => exact length_spell witnessClass id
  | group threshold members ih =>
    rw [ofQuorum, Quorum.fold_group, ← ofQuorum, size, Quorum.fold_group, ← size, length_ofGroup,
      List.map_map]
    exact congrArg (groupSize threshold) (List.map_congr_left ih)

end Program

namespace Quorum

/-- Name the witnesses of a rule by number.  Empty groups and unknown witnesses are refused, the
leftmost first, and a group before its members. -/
def numbered (number? : KeyHash → Option Nat) : Quorum KeyHash → Except CompileError (Quorum Nat) :=
  fold
    (fun name =>
      match number? name with
      | some id => .ok (.witness id)
      | none => .error (.unknownWitness name))
    (fun threshold members =>
      if members.isEmpty then .error .emptyGroup
      else (members.mapM id).map (.group threshold))

end Quorum

namespace Roster

/-- The position of a key hash among those of the roster. -/
def position? (roster : Roster) (name : KeyHash) : Option Nat :=
  roster.keys.findIdx? (fun key => key = name)

/-- The keys of a roster are in ascending order. -/
theorem ascendingKeys_publicKeys (roster : Roster) : AscendingKeys roster.publicKeys := by
  have hkeys : roster.publicKeys.map keyHash = roster.entries.map Prod.fst := by
    simp only [publicKeys, KeyTable.values, List.map_map]
    exact List.map_congr_left (fun entry hentry => roster.filed entry hentry)
  rw [AscendingKeys, hkeys]
  exact List.pairwise_map.mpr roster.ascending

@[simp] theorem length_publicKeys (roster : Roster) : roster.publicKeys.length = roster.size := by
  simp [publicKeys, KeyTable.values, KeyTable.size]

end Roster

namespace Policy

/-- Compile a policy. -/
def compile (policy : Policy) : Except CompileError CompiledPolicy :=
  if hlogs : 255 < policy.logs.size then .error (.tooManyLogs policy.logs.size)
  else if hwitnesses : 255 < policy.witnesses.size then
    .error (.tooManyWitnesses policy.witnesses.size)
  else
    match policy.quorum.numbered policy.witnesses.position? with
    | .error e => .error e
    | .ok quorum =>
      if hsize : 255 < Program.size quorum then .error (.quorumTooComplex (Program.size quorum))
      else .ok {
        logs := policy.logs.publicKeys
        witnesses := policy.witnesses.publicKeys
        program := Program.ofQuorum quorum
        logs_ascending := policy.logs.ascendingKeys_publicKeys
        witnesses_ascending := policy.witnesses.ascendingKeys_publicKeys
        length_logs := by rw [Roster.length_publicKeys]; omega
        length_witnesses := by rw [Roster.length_publicKeys]; omega
        length_program := by rw [Program.length_ofQuorum]; omega }

/-- The binary form of a compiled policy. -/
def compileToBytes (policy : Policy) : Except CompileError Bytes :=
  policy.compile.map CompiledPolicy.toBytes

/-- Read a policy from its text and compile it. -/
def compileText (text : String) : Except CompileError Bytes :=
  match ofText text with
  | .ok policy => policy.compileToBytes
  | .error cause => .error (.policy cause)

end Policy

end WitnessedLog
