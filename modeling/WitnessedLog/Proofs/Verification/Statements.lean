import WitnessedLog.Proofs.Text.Spellings
import WitnessedLog.Statement

/-!
# Signed statements are unambiguous

A signature covers a byte string, and what the signer meant has to be told by that byte string
alone.  The first nineteen bytes tell the kind of a statement.  A leaf statement then has a fixed
length.  The other two kinds consist of lines, and no field contains the end of a line, so the lines
are told, and each line tells its field.
-/

namespace WitnessedLog

namespace Statement

theorem bytes_inj
    {text text' : String}
    (h : bytes text = bytes text') : text = text' :=
  String.toList_injective (Utf8.encode_inj h)

theorem bytes_append (text text' : String) : bytes (text ++ text') = bytes text ++ bytes text' := by
  simp only [bytes, Utf8.encode, String.toList_append, List.flatMap_append]

theorem leaf_inj
    {checksum checksum' : Hash}
    (h : leaf checksum = leaf checksum') : checksum = checksum' :=
  Octets.ext_bytes (List.cons.inj (List.append_cancel_left h)).2

theorem checkpoint_inj
    {head head' : TreeHead} {log log' : KeyHash}
    (h : checkpoint head log = checkpoint head' log') : head = head' ∧ log = log' := by
  unfold checkpoint at h
  simp only [String.append_assoc, String.append_right_inj] at h
  obtain ⟨hlog, h⟩ := Text.line_inj (Hex.newline_notMem_encode _) (Hex.newline_notMem_encode _) h
  obtain ⟨hsize, hroot⟩ :=
    Text.line_inj (Text.newline_notMem_writeNumber _) (Text.newline_notMem_writeNumber _) h
  have hlength : head.rootHash.bytes.length = head'.rootHash.bytes.length := by
    rw [head.rootHash.length_bytes, head'.rootHash.length_bytes]
  have hsize := Text.writeNumber_inj hsize
  have hroot := Base64.encode_inj hlength ((String.append_left_inj "\n").mp hroot)
  cases head
  cases head'
  rw [TreeHead.mk.injEq]
  exact ⟨⟨hsize, Octets.ext_bytes hroot⟩, Octets.toHex_inj hlog⟩

theorem cosigned_inj
    {head head' : TreeHead} {log log' : KeyHash} {timestamp timestamp' : UInt64}
    (h : cosigned head log timestamp = cosigned head' log' timestamp') :
    head = head' ∧ log = log' ∧ timestamp = timestamp' := by
  unfold cosigned at h
  simp only [String.append_assoc, String.append_right_inj] at h
  obtain ⟨htime, hcheckpoint⟩ :=
    Text.line_inj (Text.newline_notMem_writeNumber _) (Text.newline_notMem_writeNumber _) h
  obtain ⟨hhead, hlog⟩ := checkpoint_inj hcheckpoint
  exact ⟨hhead, hlog, Text.writeNumber_inj htime⟩

end Statement

/-- What the parties to a log sign. -/
inductive Signable where
  /-- a submitter signs the checksum of a leaf -/
  | leaf (checksum : Hash)
  /-- a log signs its tree head -/
  | checkpoint (head : TreeHead) (log : KeyHash)
  /-- a witness signs the tree head of a log at a time -/
  | cosigned (head : TreeHead) (log : KeyHash) (timestamp : UInt64)

namespace Signable

/-- The byte string that the signature covers. -/
def bytes : Signable → Bytes
  | leaf checksum => Statement.leaf checksum
  | checkpoint head log => Statement.bytes (Statement.checkpoint head log)
  | cosigned head log timestamp => Statement.bytes (Statement.cosigned head log timestamp)

/-- How the statements of a kind begin. -/
def opening : Signable → Bytes
  | leaf _ => Statement.bytes "sigsum.org/v1/tree-"
  | checkpoint _ _ => Statement.bytes "sigsum.org/v1/tree/"
  | cosigned _ _ _ => Statement.bytes "cosignature/v1\ntime"

theorem take_bytes (signable : Signable) : signable.bytes.take 19 = signable.opening := by
  cases signable with
  | leaf checksum =>
      have hname : "sigsum.org/v1/tree-leaf" = "sigsum.org/v1/tree-" ++ "leaf" := by decide
      change (Statement.bytes "sigsum.org/v1/tree-leaf" ++ 0 :: checksum.bytes).take 19 = _
      rw [hname, Statement.bytes_append, List.append_assoc]
      exact List.take_left' (by decide)
  | checkpoint head log =>
      change (Statement.bytes (Statement.checkpoint head log)).take 19 = _
      unfold Statement.checkpoint
      simp only [String.append_assoc]
      rw [Statement.bytes_append]
      exact List.take_left' (by decide)
  | cosigned head log timestamp =>
      have hname : "cosignature/v1\ntime " = "cosignature/v1\ntime" ++ " " := by decide
      change (Statement.bytes (Statement.cosigned head log timestamp)).take 19 = _
      unfold Statement.cosigned
      simp only [hname, String.append_assoc]
      rw [Statement.bytes_append]
      exact List.take_left' (by decide)

/-- Different statements are signed as different byte strings. -/
theorem bytes_injective : Function.Injective bytes := by
  intro s s' h
  have hopening : s.opening = s'.opening := by
    rw [← take_bytes, ← take_bytes, h]
  cases s with
  | leaf checksum =>
      cases s' with
      | leaf checksum' => rw [Statement.leaf_inj h]
      | checkpoint => exact absurd (Statement.bytes_inj hopening) (by decide)
      | cosigned => exact absurd (Statement.bytes_inj hopening) (by decide)
  | checkpoint head log =>
      cases s' with
      | leaf => exact absurd (Statement.bytes_inj hopening) (by decide)
      | checkpoint head' log' =>
          obtain ⟨rfl, rfl⟩ := Statement.checkpoint_inj (Statement.bytes_inj h)
          rfl
      | cosigned => exact absurd (Statement.bytes_inj hopening) (by decide)
  | cosigned head log timestamp =>
      cases s' with
      | leaf => exact absurd (Statement.bytes_inj hopening) (by decide)
      | checkpoint => exact absurd (Statement.bytes_inj hopening) (by decide)
      | cosigned head' log' timestamp' =>
          obtain ⟨rfl, rfl, rfl⟩ := Statement.cosigned_inj (Statement.bytes_inj h)
          rfl

end Signable

end WitnessedLog
