import WitnessedLog.KeyTable

/-!
# Tree heads

A tree head states the size and the root hash of a log's tree.  The log signs it, and witnesses
cosign it together with the time at which they saw it.
-/

namespace WitnessedLog

/-- The size and root hash of a log's tree. -/
structure TreeHead where
  size : UInt64
  rootHash : Hash
  deriving DecidableEq

/-- A tree head and the log's signature over it. -/
structure SignedTreeHead where
  treeHead : TreeHead
  signature : Signature
  deriving DecidableEq

/-- A witness's signature over a tree head, made at a time given in seconds of the Unix era. -/
structure Cosignature where
  timestamp : UInt64
  signature : Signature
  deriving DecidableEq

/-- A signed tree head and the cosignatures collected for it, by the key hash of the witness. -/
structure CosignedTreeHead where
  signed : SignedTreeHead
  cosignatures : KeyTable Cosignature
  deriving DecidableEq

end WitnessedLog
