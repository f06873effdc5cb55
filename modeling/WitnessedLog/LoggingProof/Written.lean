import WitnessedLog.LoggingProof.Text

/-!
# Writing proofs of logging

A proof is written in three parts, with a blank line between them.  The lines of the tree head after
its size may stand in any order.  Version 1 has a checksum in front of the leaf, which can be any
word.
-/

namespace WitnessedLog

namespace LoggingProof

/-- The lines that name the version, the log and the leaf. -/
def openingLines (checksum : String) (proof : LoggingProof) : List String :=
  let leaf := proof.leaf.keyHash.toHex ++ " " ++ proof.leaf.signature.toHex
  ["version=" ++ proof.version.toNat.repr,
    "log=" ++ proof.log.toHex,
    if proof.version = 1 then "leaf=" ++ checksum ++ " " ++ leaf else "leaf=" ++ leaf]

/-- The line of a tree head's size, with which it begins. -/
def sizeLine (proof : LoggingProof) : String :=
  "size=" ++ Text.writeNumber proof.treeHead.signed.treeHead.size

/-- The line of a cosignature. -/
def cosignatureLine (entry : KeyHash × Cosignature) : String :=
  "cosignature=" ++ entry.1.toHex ++ " " ++ Text.writeNumber entry.2.timestamp ++ " "
    ++ entry.2.signature.toHex

/-- The other lines of a tree head. -/
def detailLines (proof : LoggingProof) : List String :=
  ["root_hash=" ++ proof.treeHead.signed.treeHead.rootHash.toHex,
    "signature=" ++ proof.treeHead.signed.signature.toHex]
  ++ proof.treeHead.cosignatures.entries.map cosignatureLine

/-- The lines of the inclusion path. -/
def inclusionLines (proof : LoggingProof) : List String :=
  ("leaf_index=" ++ Text.writeNumber proof.inclusion.leafIndex)
    :: proof.inclusion.path.map (fun node => "node_hash=" ++ node.toHex)

/-- The text of a proof whose tree head has the given lines after its size. -/
def arranged (checksum : String) (details : List String) (proof : LoggingProof) : String :=
  String.join ((proof.openingLines checksum ++ [""] ++ proof.sizeLine :: details ++ [""]
    ++ proof.inclusionLines).map (· ++ "\n"))

/-- The text of a proof. -/
def toText (checksum : String) (proof : LoggingProof) : String :=
  proof.arranged checksum proof.detailLines

end LoggingProof

end WitnessedLog
