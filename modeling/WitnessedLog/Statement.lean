import WitnessedLog.Base64
import WitnessedLog.Text.Decimal
import WitnessedLog.Text.Utf8
import WitnessedLog.TreeHead

/-!
# Signed statements

The byte strings that signatures cover.  A submitter signs the checksum of a leaf, a log signs a
checkpoint that names the log, the tree size and the root hash, and a witness signs the checkpoint
under a first line of its own and the time.  The three kinds begin differently, so a signature over
one is none over another.
-/

namespace WitnessedLog

namespace Statement

/-- The bytes of a textual statement. -/
def bytes (text : String) : Bytes :=
  Utf8.encode text.toList

/-- What a submitter signs: a name, a zero byte and the checksum. -/
def leaf (checksum : Hash) : Bytes :=
  bytes "sigsum.org/v1/tree-leaf" ++ 0 :: checksum.bytes

/-- What a log signs: its origin line, the tree size and the root hash in base64. -/
def checkpoint (head : TreeHead) (log : KeyHash) : String :=
  "sigsum.org/v1/tree/" ++ log.toHex ++ "\n" ++ Text.writeNumber head.size ++ "\n"
    ++ Base64.encode head.rootHash.bytes ++ "\n"

/-- What a witness signs: its namespace, the time, and the checkpoint. -/
def cosigned (head : TreeHead) (log : KeyHash) (timestamp : UInt64) : String :=
  "cosignature/v1\ntime " ++ Text.writeNumber timestamp ++ "\n" ++ checkpoint head log

end Statement

end WitnessedLog
