import WitnessedLog.Toml.Item

/-!
# Quoted text in TOML

There are four ways to quote text: between double quotes with escapes, between single quotes as it
stands, and both over several lines between triple quotes.  Each reader takes the characters after
the opening quotes and answers with the text and what follows the closing quotes.
-/

namespace WitnessedLog

namespace Toml

/-- Whether a character may stand in a comment or in quoted text: tabs, and all that is no control
character. -/
def isPrintable (c : Char) : Bool :=
  c == '\t' || (' ' ≤ c && c != Char.ofNat 0x7f)

/-- The value of hexadecimal digits. -/
def hexValue? (digits : List Char) : Option Nat :=
  digits.foldlM (fun value c =>
    if c.isDigit then some (16 * value + (c.toNat - 48))
    else if 'a' ≤ c ∧ c ≤ 'f' then some (16 * value + (c.toNat - 87))
    else if 'A' ≤ c ∧ c ≤ 'F' then some (16 * value + (c.toNat - 55))
    else none) 0

/-- The character with a number given by exactly `count` hexadecimal digits. -/
def scalar? (count : Nat) (digits : List Char) : Option Char := do
  let value ← hexValue? digits
  if digits.length = count ∧ value.isValidChar then some (Char.ofNat value) else none

/-- The character that a one-letter escape stands for. -/
def escaped? (c : Char) : Option Char :=
  match c with
  | 'b' => some (Char.ofNat 8)
  | 't' => some '\t'
  | 'n' => some '\n'
  | 'f' => some (Char.ofNat 12)
  | 'r' => some '\r'
  | '"' => some '"'
  | '\\' => some '\\'
  | _ => none

/-- Read text between double quotes; `read` holds its characters so far, the last first. -/
def basic? (read : List Char) : List Char → Option (String × List Char)
  | [] => none
  | '"' :: rest => some (String.ofList read.reverse, rest)
  | '\\' :: 'u' :: a :: b :: c :: d :: rest => do
    let char ← scalar? 4 [a, b, c, d]
    basic? (char :: read) rest
  | '\\' :: 'U' :: a :: b :: c :: d :: e :: f :: g :: h :: rest => do
    let char ← scalar? 8 [a, b, c, d, e, f, g, h]
    basic? (char :: read) rest
  | '\\' :: c :: rest => do
    let char ← escaped? c
    basic? (char :: read) rest
  | c :: rest => if isPrintable c && c != '\\' then basic? (c :: read) rest else none

/-- Read text between single quotes. -/
def literal? (text : List Char) : Option (String × List Char) :=
  let body := text.takeWhile (· != '\'')
  match text.drop body.length with
  | _ :: rest => if body.all isPrintable then some (String.ofList body, rest) else none
  | [] => none

/-- Where a line-ending backslash leads: over blanks, a line feed, and all blanks and line feeds
after it.  `broken` says whether a line feed has been passed. -/
def skipBreak? (broken : Bool) : List Char → Option (List Char)
  | '\r' :: '\n' :: rest => skipBreak? true rest
  | '\n' :: rest => skipBreak? true rest
  | ' ' :: rest => skipBreak? broken rest
  | '\t' :: rest => skipBreak? broken rest
  | rest => if broken then some rest else none

/-- What quotes in a row mean inside triple quotes: with fewer than three the text goes on, and three
to five close it, the surplus belonging to the text. -/
def closing? (quotes : Nat) : Option Nat :=
  if 3 ≤ quotes then some (quotes - 3) else none

/-- Read text between triple quotes, of the double kind with escapes or of the single kind without.
`fuel` bounds the number of steps. -/
def multiline? (quote : Char) (escapes : Bool) :
    (fuel : Nat) → (read : List Char) → List Char → Option (String × List Char)
  | 0, _, _ => none
  | fuel + 1, read, text =>
    match text with
    | [] => none
    | '\r' :: '\n' :: rest => multiline? quote escapes fuel ('\n' :: read) rest
    | '\n' :: rest => multiline? quote escapes fuel ('\n' :: read) rest
    | c :: rest =>
      if c = quote then
        let quotes := (text.takeWhile (· == quote)).length
        let rest := text.drop quotes
        match closing? quotes with
        | none => multiline? quote escapes fuel (List.replicate quotes quote ++ read) rest
        | some surplus =>
          if 2 < surplus then none
          else some (String.ofList (List.replicate surplus quote ++ read).reverse, rest)
      else if escapes && c == '\\' then
        match rest with
        | 'u' :: digits => do
          let char ← scalar? 4 (digits.take 4)
          multiline? quote escapes fuel (char :: read) (digits.drop 4)
        | 'U' :: digits => do
          let char ← scalar? 8 (digits.take 8)
          multiline? quote escapes fuel (char :: read) (digits.drop 8)
        | e :: after =>
          match escaped? e with
          | some char => multiline? quote escapes fuel (char :: read) after
          | none =>
            match skipBreak? false rest with
            | some after => multiline? quote escapes fuel read after
            | none => none
        | [] => none
      else if isPrintable c then multiline? quote escapes fuel (c :: read) rest
      else none

/-- The text after the opening of a multi-line text, without a line feed that comes first. -/
def dropFirstBreak : List Char → List Char
  | '\r' :: '\n' :: rest => rest
  | '\n' :: rest => rest
  | rest => rest

/-- Read quoted text of any kind, from its opening quotes on. -/
def quoted? (text : List Char) : Option (String × List Char) :=
  match text with
  | '"' :: '"' :: '"' :: rest => multiline? '"' true (rest.length + 1) [] (dropFirstBreak rest)
  | '\'' :: '\'' :: '\'' :: rest => multiline? '\'' false (rest.length + 1) [] (dropFirstBreak rest)
  | '"' :: rest => basic? [] rest
  | '\'' :: rest => literal? rest
  | _ => none

end Toml

end WitnessedLog
