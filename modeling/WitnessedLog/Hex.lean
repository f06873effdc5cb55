import WitnessedLog.Bytes

/-!
# Hexadecimal text

Bytes are written as two lower-case digits each, high nibble first.  Reading accepts both cases.
The length of the text is measured in UTF-8 bytes, and an odd length is reported before any
character is looked at.
-/

namespace WitnessedLog

/-- Why a text is not the hexadecimal form of a byte string of the expected length. -/
inductive EncodingError where
  | invalidHexCharacter
  | oddHexLength
  | invalidLength (expected actual : Nat)
  deriving DecidableEq, Repr

/-- The sentence shown for an encoding error. -/
def EncodingError.message : EncodingError → String
  | .invalidHexCharacter => "Hex string contains invalid characters"
  | .oddHexLength => "Hex string must have an even length"
  | .invalidLength expected actual => s!"expected {expected} bytes, got {actual}"

namespace Hex

/-- The nibble that a digit of either case stands for. -/
def value? (c : Char) : Option Nat :=
  if c.isDigit then some (c.toNat - 48)
  else if 'a' ≤ c ∧ c ≤ 'f' then some (c.toNat - 87)
  else if 'A' ≤ c ∧ c ≤ 'F' then some (c.toNat - 55)
  else none

/-- The two digits of a byte, high nibble first. -/
def digits (b : UInt8) : List Char :=
  [(b.toNat / 16).digitChar, (b.toNat % 16).digitChar]

/-- The lower-case hexadecimal form of a byte string. -/
def encode (bytes : Bytes) : String :=
  String.ofList (bytes.flatMap digits)

/-- The bytes spelled by consecutive pairs of digits, if every character is a digit. -/
def ofDigits? : List Char → Option Bytes
  | [] => some []
  | [_] => none
  | high :: low :: rest =>
    match value? high, value? low with
    | some h, some l => (ofDigits? rest).map (UInt8.ofNat (16 * h + l) :: ·)
    | _, _ => none

/-- Read hexadecimal text: first the parity of its length, then its characters. -/
def decode (text : String) : Except EncodingError Bytes :=
  if text.utf8ByteSize % 2 = 1 then .error .oddHexLength
  else match ofDigits? text.toList with
    | some bytes => .ok bytes
    | none => .error .invalidHexCharacter

end Hex

end WitnessedLog
