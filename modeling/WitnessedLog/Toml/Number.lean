import WitnessedLog.Toml.Item

/-!
# Numbers and points in time in TOML

What a run of letters, digits, signs, underscores, dots and colons stands for.  Integers must fit 64
bits with a sign, floats must be below the point where rounding gives infinity, and points in time
must exist in the calendar.
-/

namespace WitnessedLog

namespace Toml

/-- A numeral without its sign. -/
def dropSign : List Char → List Char
  | '+' :: rest => rest
  | '-' :: rest => rest
  | digits => digits

/-- Digits of a base, with single underscores allowed between them; the underscores are left out. -/
def digits? (isDigit : Char → Bool) (text : List Char) : Option (List Char) :=
  let groups := text.splitOn '_'
  if groups.all (fun group => !group.isEmpty && group.all isDigit) then some groups.flatten else none

/-- The value of a digit in bases up to sixteen. -/
def digitValue (c : Char) : Nat :=
  if c.isDigit then c.toNat - 48 else if c.isUpper then c.toNat - 55 else c.toNat - 87

/-- The value of digits in a base. -/
def natValue (base : Nat) (digits : List Char) : Nat :=
  digits.foldl (fun value c => base * value + digitValue c) 0

/-- Decimal digits without a superfluous leading zero. -/
def decimal? (text : List Char) : Option (List Char) :=
  match digits? Char.isDigit text with
  | some ('0' :: _ :: _) => none
  | found => found

/-- Whether a character is a digit of base sixteen. -/
def isHexDigit (c : Char) : Bool :=
  c.isDigit || ('a' ≤ c && c ≤ 'f') || ('A' ≤ c && c ≤ 'F')

/-- Whether a run of characters is an integer that fits 64 bits with a sign. -/
def isInteger (text : List Char) : Bool :=
  let fits := fun (base limit : Nat) (digits : Option (List Char)) =>
    match digits with
    | some digits => decide (natValue base digits ≤ limit)
    | none => false
  match text with
  | '0' :: 'x' :: rest => fits 16 ((1 <<< 63) - 1) (digits? isHexDigit rest)
  | '0' :: 'o' :: rest => fits 8 ((1 <<< 63) - 1) (digits? (fun c => '0' ≤ c && c ≤ '7') rest)
  | '0' :: 'b' :: rest => fits 2 ((1 <<< 63) - 1) (digits? (fun c => c == '0' || c == '1') rest)
  | '-' :: rest => fits 10 (1 <<< 63) (decimal? rest)
  | rest => fits 10 ((1 <<< 63) - 1) (decimal? (dropSign rest))

/-- Whether `digits · 10 ^ exponent` is too large for a finite float of double precision. -/
def overflows (digits : List Char) (exponent : Int) : Bool :=
  let significant := digits.dropWhile (· == '0')
  let magnitude := significant.length + exponent
  if significant.isEmpty || magnitude < 308 then false
  else if 310 < magnitude then true
  else
    let value := natValue 10 significant
    let bound := (1 <<< 1024) - (1 <<< 970)
    if 0 ≤ exponent then decide (bound ≤ value * Nat.pow 10 exponent.toNat)
    else decide (bound * Nat.pow 10 (-exponent).toNat ≤ value)

/-- Whether a run of characters is a float. -/
def isFloat (text : List Char) : Bool :=
  let unsigned := dropSign text
  if unsigned = "inf".toList ∨ unsigned = "nan".toList then true
  else
    let mantissa := unsigned.takeWhile (fun c => c != 'e' && c != 'E')
    let scale := unsigned.drop mantissa.length
    let whole := mantissa.takeWhile (· != '.')
    let fraction := mantissa.drop whole.length
    let exponentDigits := digits? Char.isDigit (dropSign (scale.drop 1))
    match decimal? whole, fraction.isEmpty, digits? Char.isDigit (fraction.drop 1), scale.isEmpty,
      exponentDigits with
    | some _, true, _, true, _ => false
    | some whole, noFraction, fractionDigits, noScale, exponent =>
      let places := if noFraction then some [] else fractionDigits
      let power := if noScale then some [] else exponent
      match places, power with
      | some places, some power =>
        let size : Int := natValue 10 power
        let exponent := if (scale.drop 1).head? = some '-' then -size else size
        text.head? = some '-' || !overflows (whole ++ places) (exponent - places.length)
      | _, _ => false
    | none, _, _, _, _ => false

/-- The number that exactly `count` decimal digits stand for. -/
def fixedDigits? (count : Nat) (text : List Char) : Option Nat :=
  if text.length = count ∧ text.all Char.isDigit then some (natValue 10 text) else none

/-- The number of days of a month. -/
def daysIn (year month : Nat) : Nat :=
  if month = 2 then
    if year % 4 = 0 ∧ (year % 100 ≠ 0 ∨ year % 400 = 0) then 29 else 28
  else if month = 4 ∨ month = 6 ∨ month = 9 ∨ month = 11 then 30
  else 31

/-- Whether ten characters are a day of the calendar. -/
def isDate (text : List Char) : Bool :=
  match (text.splitOn '-').mapM (fun part => fixedDigits? part.length part),
    (text.splitOn '-').map List.length with
  | some [year, month, day], [4, 2, 2] =>
    1 ≤ month && month ≤ 12 && 1 ≤ day && day ≤ daysIn year month
  | _, _ => false

/-- Whether a text is an hour and a minute. -/
def isHourMinute (text : List Char) : Bool :=
  match text.splitOn ':' with
  | [hour, minute] =>
    match fixedDigits? 2 hour, fixedDigits? 2 minute with
    | some hour, some minute => hour ≤ 23 && minute ≤ 59
    | _, _ => false
  | _ => false

/-- Whether a text is a time of day. -/
def isTime (text : List Char) : Bool :=
  let fraction := text.drop 8
  let seconds := fixedDigits? 2 ((text.take 8).drop 6)
  isHourMinute (text.take 5) && (text.drop 5).head? = some ':'
    && (match seconds with
      | some seconds => decide (seconds ≤ 60)
      | none => false)
    && (match fraction with
      | [] => true
      | '.' :: digits => !digits.isEmpty && digits.all Char.isDigit
      | _ => false)

/-- Whether a text is a time of day, perhaps with its distance from universal time. -/
def isZonedTime (text : List Char) : Bool :=
  let time := text.takeWhile (fun c => c.isDigit || c == ':' || c == '.')
  isTime time && (match text.drop time.length with
    | [] => true
    | ['Z'] => true
    | ['z'] => true
    | '+' :: offset => isHourMinute offset
    | '-' :: offset => isHourMinute offset
    | _ => false)

/-- Whether a text is a date, a time of day, or both. -/
def isMoment (text : List Char) : Bool :=
  isTime text || isDate text
    || (isDate (text.take 10) && (match text.drop 10 with
      | c :: time => (c == 'T' || c == 't' || c == ' ') && isZonedTime time
      | [] => false))

/-- Whether a character can occur in a number or a point in time. -/
def isNumberCharacter (c : Char) : Bool :=
  c.isAlphanum || c == '+' || c == '-' || c == '_' || c == '.' || c == ':'

/-- Read a number or a point in time.  A space may separate a date from its time. -/
def number? (text : List Char) : Option (Item × List Char) :=
  let run := text.takeWhile isNumberCharacter
  let rest := text.drop run.length
  let (run, rest) :=
    match isDate run, rest with
    | true, ' ' :: c :: more =>
      if c.isDigit then
        let time := (c :: more).takeWhile isNumberCharacter
        (run ++ ' ' :: time, (c :: more).drop time.length)
      else (run, rest)
    | _, _ => (run, rest)
  let written := String.ofList run
  if isMoment run then some (.moment written, rest)
  else if isInteger run then some (.integer written, rest)
  else if isFloat run then some (.float written, rest)
  else none

end Toml

end WitnessedLog
