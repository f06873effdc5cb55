import WitnessedLog.Bytes

/-!
# Base64 text

The standard alphabet with padding: three bytes become four characters, and a last group of one or
two bytes is filled up with equality signs.
-/

namespace WitnessedLog

namespace Base64

/-- The character for a group of six bits. -/
def symbol (sextet : Nat) : Char :=
  if sextet < 26 then Char.ofNat (65 + sextet)
  else if sextet < 52 then Char.ofNat (71 + sextet)
  else if sextet < 62 then Char.ofNat (sextet - 4)
  else if sextet = 62 then '+'
  else '/'

/-- The padded characters of a byte string. -/
def symbols : Bytes → List Char
  | [] => []
  | [a] =>
    [symbol (a.toNat / 4), symbol (a.toNat % 4 * 16), '=', '=']
  | [a, b] =>
    [symbol (a.toNat / 4), symbol (a.toNat % 4 * 16 + b.toNat / 16),
      symbol (b.toNat % 16 * 4), '=']
  | a :: b :: c :: rest =>
    symbol (a.toNat / 4) :: symbol (a.toNat % 4 * 16 + b.toNat / 16)
      :: symbol (b.toNat % 16 * 4 + c.toNat / 64) :: symbol (c.toNat % 64) :: symbols rest

/-- The padded base64 form of a byte string. -/
def encode (bytes : Bytes) : String :=
  String.ofList (symbols bytes)

end Base64

end WitnessedLog
