import WitnessedLog.Text.Blank

/-!
# Lines and words

A text is cut into lines at line feeds, and a line into words at blank characters.  Lines are kept
as lists of characters and words as strings.
-/

namespace WitnessedLog

namespace Text

/-- A line without the carriage return that stood before its line feed. -/
def dropReturn (line : List Char) : List Char :=
  if line.getLast? = some '\r' then line.dropLast else line

/-- The lines of a text.  Each ends at a line feed, before which one carriage return is dropped;
characters after the last line feed form a line of their own, kept as it is. -/
def lines (text : List Char) : List (List Char) :=
  let parts := text.splitOn '\n'
  parts.dropLast.map dropReturn ++ parts.getLast?.toList.filter (fun rest => !rest.isEmpty)

/-- A text without the blank characters at both of its ends. -/
def trim (text : List Char) : List Char :=
  ((text.dropWhile isBlank).reverse.dropWhile isBlank).reverse

/-- The maximal runs of non-blank characters of a line, in order. -/
def words (line : List Char) : List String :=
  ((line.splitOnP isBlank).filter (fun word => !word.isEmpty)).map String.ofList

/-- What follows `start` in a text that begins with it. -/
def dropStart? : (start text : List Char) → Option (List Char)
  | [], text => some text
  | _ :: _, [] => none
  | a :: start, b :: text => if a = b then dropStart? start text else none

/-- The parts of a text before and after its first equality sign. -/
def splitAtEquals? (text : List Char) : Option (List Char × List Char) :=
  match text.dropWhile (· != '=') with
  | [] => none
  | _ :: value => some (text.takeWhile (· != '='), value)

theorem dropStart?_eq_some_iff
    {start text rest : List Char} :
    dropStart? start text = some rest ↔ text = start ++ rest := by
  induction start generalizing text with
  | nil => simp [dropStart?, eq_comm]
  | cons a start ih =>
    cases text with
    | nil => simp [dropStart?]
    | cons b text =>
      by_cases h : a = b
      · simp [dropStart?, h, ih]
      · simp [dropStart?, h, Ne.symm h]

end Text

end WitnessedLog
