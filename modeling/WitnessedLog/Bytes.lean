/-!
# Byte strings

Everything that is hashed, signed or written to a file is a finite list of bytes.  The order is the
lexicographic one, so a proper initial segment comes before its extensions.  Numbers are written
with their most significant byte first.
-/

namespace WitnessedLog

/-- A finite string of bytes. -/
abbrev Bytes := List UInt8

namespace Bytes

/-- The last `count` base-256 digits of a number, most significant first. -/
def bigEndian : (count : Nat) → (value : Nat) → Bytes
  | 0, _ => []
  | count + 1, value => bigEndian count (value / 256) ++ [UInt8.ofNat value]

@[simp] theorem length_bigEndian (count value : Nat) :
    (bigEndian count value).length = count := by
  induction count generalizing value with
  | zero => rfl
  | succ count ih => simp [bigEndian, ih]

/-- The number whose base-256 digits are given, most significant first. -/
def ofBigEndian (bytes : Bytes) : Nat :=
  bytes.foldl (fun value b => 256 * value + b.toNat) 0

/-- The number whose base-256 digits are given, least significant first. -/
def ofLittleEndian (bytes : Bytes) : Nat :=
  bytes.foldr (fun b value => b.toNat + 256 * value) 0

/-- The first `count` pieces of `size` bytes each. -/
def pieces (size : Nat) : (count : Nat) → Bytes → List Bytes
  | 0, _ => []
  | count + 1, bytes => bytes.take size :: pieces size count (bytes.drop size)

@[simp] theorem length_pieces
    (size count : Nat) (bytes : Bytes) :
    (pieces size count bytes).length = count := by
  induction count generalizing bytes with
  | zero => rfl
  | succ count ih => simp [pieces, ih]

end Bytes

end WitnessedLog
