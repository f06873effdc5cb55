import WitnessedLog.LoggingProof
import WitnessedLog.Text.Decimal
import WitnessedLog.Text.Line

/-!
# Proofs of logging as text

A proof is written as lines of the form `key=value` in three parts separated by blank lines:

    version=2
    log=<key hash>
    leaf=<key hash> <signature>

    size=<number>
    root_hash=<hash>
    signature=<signature>
    cosignature=<key hash> <time> <signature>

    leaf_index=<number>
    node_hash=<hash>

Lines with other keys are ignored.  In version 1 the leaf line has a checksum in front, which is
ignored as well.
-/

namespace WitnessedLog

namespace LoggingProof

/-- Whether a line begins with a key and an equality sign. -/
def hasKey (key : String) (line : List Char) : Bool :=
  (key.toList ++ ['=']).isPrefixOf line

/-- The value of the first line with the given key. -/
def value? (key : String) (lines : List (List Char)) : Option (List Char) :=
  lines.findSome? (Text.dropStart? (key.toList ++ ['=']))

/-- Read a fixed-length value. -/
def readOctets (role : Role) (text : String) : Except ProofError (Octets role) :=
  match Octets.ofHex role text with
  | .ok value => .ok value
  | .error cause => .error (.encoding cause)

/-- The value of a line that must be there. -/
def requireValue (key : String) (lines : List (List Char)) : Except ProofError (List Char) :=
  match value? key lines with
  | some value => .ok value
  | none => .error (.missingLine key)

/-- Read the version from its line. -/
def readVersion (lines : List (List Char)) : Except ProofError UInt8 := do
  let value ← requireValue "version" lines
  match String.ofList (Text.trim value) with
  | "1" => .ok 1
  | "2" => .ok 2
  | other => .error (.unknownVersion other)

/-- Read the key hash of the log from its line. -/
def readLog (lines : List (List Char)) : Except ProofError KeyHash := do
  let value ← requireValue "log" lines
  readOctets .keyHash (String.ofList (Text.trim value))

/-- Read the leaf from its line. -/
def readLeaf (version : UInt8) (lines : List (List Char)) :
    Except ProofError ShortLeaf := do
  let value ← requireValue "leaf" lines
  match version.toNat, Text.words value with
  | 1, [_, keyHash, signature] | 2, [keyHash, signature] =>
    let keyHash ← readOctets .keyHash keyHash
    let signature ← readOctets .signature signature
    .ok ⟨keyHash, signature⟩
  | _, _ => .error .invalidLeafLine

/-- Read a number that must not be zero. -/
def readPositive? (numeral : List Char) : Option UInt64 :=
  (Text.readNumber? numeral).filter (fun value => 0 < value)

/-- The fields of a tree head that have been read. -/
structure HeadFields where
  size : Option UInt64
  rootHash : Option Hash
  signature : Option Signature
  cosignatures : KeyTable Cosignature

namespace HeadFields

/-- Before the first line nothing has been read. -/
def start : HeadFields :=
  ⟨none, none, none, KeyTable.empty⟩

/-- Read the words of a cosignature line: witness, time and signature. -/
def addCosignature (fields : HeadFields) (words : List String) : Except ProofError HeadFields :=
  match words with
  | [witness, time, signature] => do
    let witness ← readOctets .keyHash witness
    match readPositive? time.toList with
    | none => .error .invalidCosignatureTimestamp
    | some timestamp =>
      let signature ← readOctets .signature signature
      if fields.cosignatures.contains witness then .error (.duplicateCosignature witness)
      else
        let cosignatures := fields.cosignatures.insert witness ⟨timestamp, signature⟩
        .ok { fields with cosignatures }
  | _ => .error .invalidCosignature

/-- Take the value of a key.  A later line with the same key counts, and an unknown key does not. -/
def set (fields : HeadFields) (key : String) (value : List Char) : Except ProofError HeadFields :=
  match key with
  | "size" =>
    match readPositive? value with
    | some size => .ok { fields with size := some size }
    | none => .error .invalidTreeSize
  | "root_hash" => do
    let rootHash ← readOctets .hash (String.ofList value)
    .ok { fields with rootHash := some rootHash }
  | "signature" => do
    let signature ← readOctets .signature (String.ofList value)
    .ok { fields with signature := some signature }
  | _ => .ok fields

/-- Read one line of a tree head. -/
def readLine (fields : HeadFields) (line : List Char) : Except ProofError HeadFields :=
  let line := Text.trim line
  match Text.dropStart? "cosignature=".toList line with
  | some rest => fields.addCosignature (Text.words rest)
  | none =>
    match Text.splitAtEquals? line with
    | none => .ok fields
    | some (key, value) =>
      if key = [] ∨ value = [] then .ok fields else fields.set (String.ofList key) value

/-- The tree head, once its fields are complete. -/
def complete (fields : HeadFields) : Except ProofError CosignedTreeHead :=
  match fields.size, fields.rootHash with
  | some size, some rootHash =>
    match fields.signature with
    | some signature => .ok ⟨⟨⟨size, rootHash⟩, signature⟩, fields.cosignatures⟩
    | none => .error .missingTreeHeadSignature
  | _, _ => .error .missingTreeHeadFields

end HeadFields

/-- The lines of the tree head: from the first with a size to the next blank line. -/
def headLines (lines : List (List Char)) : List (List Char) :=
  (lines.dropWhile (fun line => !hasKey "size" line)).takeWhile (fun line => Text.trim line != [])

/-- Read the cosigned tree head. -/
def readTreeHead (lines : List (List Char)) : Except ProofError CosignedTreeHead :=
  if lines.any (hasKey "size") then do
    let fields ← (headLines lines).foldlM HeadFields.readLine HeadFields.start
    fields.complete
  else .error .missingTreeHead

/-- The fields of an inclusion path that have been read. -/
structure PathFields where
  leafIndex : Option UInt64
  path : List Hash

namespace PathFields

/-- Before the first line nothing has been read. -/
def start : PathFields :=
  ⟨none, []⟩

/-- Take the value of a key. -/
def set (fields : PathFields) (key : String) (value : List Char) : Except ProofError PathFields :=
  match key with
  | "leaf_index" =>
    match fields.leafIndex with
    | some _ => .error .duplicateLeafIndex
    | none =>
      match Text.readNumber? value with
      | some index => .ok { fields with leafIndex := some index }
      | none => .error .invalidLeafIndex
  | "node_hash" => do
    let node ← readOctets .hash (String.ofList value)
    .ok { fields with path := fields.path ++ [node] }
  | _ => .ok fields

/-- Read one line of an inclusion path. -/
def readLine (fields : PathFields) (line : List Char) : Except ProofError PathFields :=
  match Text.splitAtEquals? (Text.trim line) with
  | some (key, value) =>
    if key = [] ∨ value = [] then .error (.invalidInclusionLine (String.ofList line))
    else fields.set (String.ofList key) value
  | none => .error (.invalidInclusionLine (String.ofList line))

/-- The inclusion path, once its fields are complete. -/
def complete (fields : PathFields) : Except ProofError InclusionPath :=
  match fields.leafIndex with
  | some leafIndex => .ok ⟨leafIndex, fields.path⟩
  | none => .error .missingLeafIndex

end PathFields

/-- The lines of the inclusion path: from the first with a leaf index, those with a leaf index or a
node hash. -/
def pathLines (lines : List (List Char)) : List (List Char) :=
  (lines.dropWhile (fun line => !hasKey "leaf_index" line)).filter
    (fun line => hasKey "leaf_index" line || hasKey "node_hash" line)

/-- Read the inclusion path. -/
def readInclusion (lines : List (List Char)) : Except ProofError InclusionPath := do
  let fields ← (pathLines lines).foldlM PathFields.readLine PathFields.start
  fields.complete

/-- Read a proof from its lines. -/
def ofLines (lines : List (List Char)) : Except ProofError LoggingProof := do
  let version ← readVersion lines
  let log ← readLog lines
  let leaf ← readLeaf version lines
  let treeHead ← readTreeHead lines
  let inclusion ← readInclusion lines
  .ok ⟨version, log, leaf, treeHead, inclusion⟩

/-- Read a proof from its text. -/
def ofText (text : String) : Except ProofError LoggingProof :=
  ofLines (Text.lines (Text.trim text.toList))

end LoggingProof

end WitnessedLog
