import WitnessedLog.Bytes

/-!
# UTF-8

Bytes are read as text by a small automaton.  Its state is the character begun but not finished: the
value collected so far, the range in which the next byte must lie, and the number of bytes that
follow it.  A byte outside the range ends the unfinished character and is looked at again as a first
byte, so each invalid part is as long as it can be.  Strict reading refuses a text with an invalid
part; lossy reading puts U+FFFD in its place.
-/

namespace WitnessedLog

namespace Utf8

/-- The UTF-8 form of a list of characters. -/
def encode (text : List Char) : Bytes :=
  text.flatMap String.utf8EncodeChar

/-- A character of which some bytes have been read. -/
structure Unfinished where
  /-- the bits read so far -/
  value : Nat
  /-- the least byte that may follow -/
  least : Nat
  /-- the greatest byte that may follow -/
  greatest : Nat
  /-- how many bytes come after the next one -/
  remaining : Nat

/-- A part of a byte string: a character, or nothing for an invalid part. -/
abbrev Part := Option Char

/-- Look at a byte with which a character should begin. -/
def start (b : UInt8) : List Part × Option Unfinished :=
  let n := b.toNat
  if n < 0x80 then ([some (Char.ofNat n)], none)
  else if 0xc2 ≤ n ∧ n ≤ 0xdf then ([], some ⟨n - 0xc0, 0x80, 0xbf, 0⟩)
  else if n = 0xe0 then ([], some ⟨0, 0xa0, 0xbf, 1⟩)
  else if n = 0xed then ([], some ⟨0xd, 0x80, 0x9f, 1⟩)
  else if 0xe1 ≤ n ∧ n ≤ 0xef then ([], some ⟨n - 0xe0, 0x80, 0xbf, 1⟩)
  else if n = 0xf0 then ([], some ⟨0, 0x90, 0xbf, 2⟩)
  else if 0xf1 ≤ n ∧ n ≤ 0xf3 then ([], some ⟨n - 0xf0, 0x80, 0xbf, 2⟩)
  else if n = 0xf4 then ([], some ⟨4, 0x80, 0x8f, 2⟩)
  else ([none], none)

/-- Look at the next byte, with or without an unfinished character. -/
def next (state : Option Unfinished) (b : UInt8) : List Part × Option Unfinished :=
  match state with
  | none => start b
  | some begun =>
    if begun.least ≤ b.toNat ∧ b.toNat ≤ begun.greatest then
      let value := 64 * begun.value + b.toNat % 64
      match begun.remaining with
      | 0 => ([some (Char.ofNat value)], none)
      | remaining + 1 => ([], some ⟨value, 0x80, 0xbf, remaining⟩)
    else
      let (parts, state) := start b
      (none :: parts, state)

/-- The characters and maximal invalid parts of a byte string, after what the state holds. -/
def partsAfter (state : Option Unfinished) : Bytes → List Part
  | [] => if state.isSome then [none] else []
  | b :: rest =>
    let (parts, state) := next state b
    parts ++ partsAfter state rest

/-- The characters and maximal invalid parts of a byte string. -/
def parts (bytes : Bytes) : List Part :=
  partsAfter none bytes

/-- The text that the bytes encode, if no part is invalid. -/
def decode? (bytes : Bytes) : Option (List Char) :=
  (parts bytes).mapM id

/-- The text of the bytes with U+FFFD for each invalid part. -/
def decodeLossy (bytes : Bytes) : List Char :=
  (parts bytes).map (fun part => part.getD (Char.ofNat 0xfffd))

end Utf8

end WitnessedLog
