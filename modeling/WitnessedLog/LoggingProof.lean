import WitnessedLog.Leaf
import WitnessedLog.TreeHead

/-!
# Proofs of logging

A proof of logging names the log and the leaf, carries the tree head with the log's signature and the
cosignatures of witnesses, and shows by an audit path that the leaf is in the tree.
-/

namespace WitnessedLog

/-- The index of a leaf and its audit path, from the bottom up. -/
structure InclusionPath where
  leafIndex : UInt64
  path : List Hash
  deriving DecidableEq

/-- A proof of logging. -/
structure LoggingProof where
  /-- the version of the text format, of which 1 and 2 can be read -/
  version : UInt8
  log : KeyHash
  leaf : ShortLeaf
  treeHead : CosignedTreeHead
  inclusion : InclusionPath
  deriving DecidableEq

/-- Why a text is not a proof of logging. -/
inductive ProofError where
  | missingLine (key : String)
  | unknownVersion (version : String)
  | invalidLeafLine
  | missingTreeHead
  | missingTreeHeadFields
  | missingTreeHeadSignature
  | invalidTreeSize
  | invalidCosignature
  | invalidCosignatureTimestamp
  | duplicateCosignature (witness : KeyHash)
  | invalidInclusionLine (line : String)
  | invalidLeafIndex
  | duplicateLeafIndex
  | missingLeafIndex
  | encoding (cause : EncodingError)
  deriving DecidableEq

/-- The sentence shown for a fault of a proof. -/
def ProofError.message : ProofError → String
  | .missingLine key => "missing " ++ key ++ " line"
  | .unknownVersion version => "unknown proof version " ++ version
  | .invalidLeafLine => "invalid leaf line format"
  | .missingTreeHead => "missing tree head start"
  | .missingTreeHeadFields => "missing tree_head fields"
  | .missingTreeHeadSignature => "missing tree head signature"
  | .invalidTreeSize => "invalid tree size"
  | .invalidCosignature => "invalid cosignature format"
  | .invalidCosignatureTimestamp => "invalid cosignature timestamp"
  | .duplicateCosignature witness => "duplicate cosignature for witness " ++ witness.toHex
  | .invalidInclusionLine line => "invalid line in inclusion proof: " ++ line
  | .invalidLeafIndex => "invalid leaf_index value"
  | .duplicateLeafIndex => "duplicate leaf_index line in inclusion proof"
  | .missingLeafIndex => "missing leaf_index line in inclusion proof"
  | .encoding cause => "invalid proof field: " ++ cause.message

end WitnessedLog
