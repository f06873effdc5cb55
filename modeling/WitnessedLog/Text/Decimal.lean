/-!
# Decimal numerals

Numbers are written with the fewest digits.  Reading is more generous: one plus sign may stand in
front, and any number of leading zeros; a value that does not fit 64 bits is refused.
-/

namespace WitnessedLog

namespace Text

/-- A numeral without its optional plus sign. -/
def dropPlus : List Char → List Char
  | '+' :: digits => digits
  | digits => digits

/-- Read an unsigned 64-bit number in decimal notation. -/
def readNumber? (numeral : List Char) : Option UInt64 :=
  let digits := dropPlus numeral
  if digits ≠ [] ∧ digits.all Char.isDigit then
    let value := Nat.ofDigitChars 10 digits 0
    if value < UInt64.size then some (UInt64.ofNat value) else none
  else none

/-- Write a number in decimal notation. -/
def writeNumber (value : UInt64) : String :=
  value.toNat.repr

end Text

end WitnessedLog
