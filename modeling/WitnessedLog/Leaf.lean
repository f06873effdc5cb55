import WitnessedLog.Key

/-!
# Log entries

A leaf records that the holder of a key signed a checksum.  Its canonical form has a fixed length and
starts with a zero byte, so that it is never taken for an interior node of the tree.  Proofs carry a
leaf without its checksum, which the verifier computes from the message.
-/

namespace WitnessedLog

/-- An entry of a log. -/
structure Leaf where
  checksum : Hash
  signature : Signature
  keyHash : KeyHash
  deriving DecidableEq

/-- A leaf without its checksum. -/
structure ShortLeaf where
  keyHash : KeyHash
  signature : Signature
  deriving DecidableEq

namespace Leaf

/-- The byte that opens the canonical form of a leaf. -/
def opening : UInt8 := 0x00

/-- The canonical form: the opening byte, the checksum, the signature and the key hash. -/
def encode (leaf : Leaf) : Bytes :=
  opening :: (leaf.checksum.bytes ++ leaf.signature.bytes ++ leaf.keyHash.bytes)

/-- The canonical form takes 129 bytes. -/
theorem length_encode (leaf : Leaf) : leaf.encode.length = 129 := by
  simp [encode, Octets.length_bytes, Role.size]

/-- The canonical form tells all fields of a leaf. -/
theorem encode_inj
    {leaf₁ leaf₂ : Leaf}
    (h : leaf₁.encode = leaf₂.encode) : leaf₁ = leaf₂ := by
  obtain ⟨checksum₁, signature₁, keyHash₁⟩ := leaf₁
  obtain ⟨checksum₂, signature₂, keyHash₂⟩ := leaf₂
  have hchecksum : checksum₁.bytes.length = checksum₂.bytes.length := by
    rw [checksum₁.length_bytes, checksum₂.length_bytes]
  have hsignature : signature₁.bytes.length = signature₂.bytes.length := by
    rw [signature₁.length_bytes, signature₂.length_bytes]
  have hfields := (List.cons.inj h).2
  rw [List.append_assoc, List.append_assoc] at hfields
  obtain ⟨hfirst, hrest⟩ := List.append_inj hfields hchecksum
  obtain ⟨hsecond, hthird⟩ := List.append_inj hrest hsignature
  rw [Leaf.mk.injEq]
  exact ⟨Octets.ext_bytes hfirst, Octets.ext_bytes hsecond, Octets.ext_bytes hthird⟩

/-- The hash of a leaf as a node of the tree. -/
def hash (leaf : Leaf) : Hash :=
  sha256 leaf.encode

/-- The part of a leaf that a proof carries. -/
def short (leaf : Leaf) : ShortLeaf :=
  ⟨leaf.keyHash, leaf.signature⟩

end Leaf

/-- The leaf with the given checksum. -/
def ShortLeaf.complete (leaf : ShortLeaf) (checksum : Hash) : Leaf :=
  ⟨checksum, leaf.signature, leaf.keyHash⟩

/-- A leaf is recovered from its short form and its checksum. -/
theorem Leaf.complete_short (leaf : Leaf) : leaf.short.complete leaf.checksum = leaf := rfl

end WitnessedLog
