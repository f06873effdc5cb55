import WitnessedLog.Text.Line
import WitnessedLog.Toml.Number
import WitnessedLog.Toml.Quoted

/-!
# Reading TOML documents

A document is a sequence of lines: pairs of a key and a value, headers that say to which table the
following pairs belong, and comments.  Arrays may spread over several lines.  Arrays and inline
tables nest at most 79 deep, and a key has at most 79 parts.  The readers take the characters that
are left and answer with what they found and the characters after it.
-/

namespace WitnessedLog

namespace Toml

/-- Arrays and inline tables nest less deep than this, and keys have fewer parts. -/
def nestingLimit : Nat := 80

/-- Skip spaces and tabs. -/
def skipBlanks (text : List Char) : List Char :=
  text.dropWhile (fun c => c == ' ' || c == '\t')

/-- Skip the line feed at the front. -/
def skipLineFeed? : List Char → Option (List Char)
  | '\n' :: rest => some rest
  | '\r' :: '\n' :: rest => some rest
  | _ => none

/-- Skip a comment at the front, if there is one. -/
def skipComment : List Char → List Char
  | '#' :: rest => rest.dropWhile isPrintable
  | text => text

/-- Skip to the next line, over blanks and a comment only. -/
def endLine? (text : List Char) : Option (List Char) :=
  match skipComment (skipBlanks text) with
  | [] => some []
  | rest => skipLineFeed? rest

/-- Skip blanks, comments and line feeds. -/
def skipLines : (fuel : Nat) → List Char → List Char
  | 0, text => text
  | fuel + 1, text =>
    match skipLineFeed? (skipComment (skipBlanks text)) with
    | some rest => skipLines fuel rest
    | none => skipBlanks text

/-- Whether a character may stand in a key without quotes. -/
def isBareKeyCharacter (c : Char) : Bool :=
  c.isAlphanum || c == '-' || c == '_'

/-- Read one part of a key. -/
def keyPart? (text : List Char) : Option (String × List Char) :=
  match text with
  | '"' :: rest => basic? [] rest
  | '\'' :: rest => literal? rest
  | _ =>
    let bare := text.takeWhile isBareKeyCharacter
    if bare.isEmpty then none else some (String.ofList bare, text.drop bare.length)

/-- Read the parts of a dotted key, of which there are at most as many as `fuel`. -/
def keyParts? : (fuel : Nat) → List Char → Option (List String × List Char)
  | 0, _ => none
  | fuel + 1, text => do
    let (part, rest) ← keyPart? (skipBlanks text)
    match skipBlanks rest with
    | '.' :: rest =>
      let (parts, rest) ← keyParts? fuel rest
      some (part :: parts, rest)
    | rest => some ([part], rest)

/-- Read a key: the parts before the last one, and the last one. -/
def key? (text : List Char) : Option ((List String × String) × List Char) := do
  let (parts, rest) ← keyParts? (nestingLimit - 1) text
  let last ← parts.getLast?
  some ((parts.dropLast, last), rest)

mutual

/-- Read a value.  `depth` counts the arrays and inline tables around it, and `fuel` bounds the number
of steps. -/
def value? (fuel depth : Nat) (text : List Char) : Option (Item × List Char) :=
  match fuel with
  | 0 => none
  | fuel + 1 =>
    match text with
    | '[' :: rest =>
      if nestingLimit ≤ depth + 1 then none
      else do
        let (items, rest) ← items? fuel (depth + 1) rest
        some (.array items, rest)
    | '\x7b' :: rest =>
      if nestingLimit ≤ depth + 1 then none
      else
        match skipBlanks rest with
        | '\x7d' :: rest => some (.table .inline [], rest)
        | rest => do
          let (entries, rest) ← pairs? fuel (depth + 1) [] rest
          some (.table .inline entries, rest)
    | '"' :: _ => (quoted? text).map (fun (read, rest) => (.text read, rest))
    | '\'' :: _ => (quoted? text).map (fun (read, rest) => (.text read, rest))
    | 't' :: 'r' :: 'u' :: 'e' :: rest => some (.boolean true, rest)
    | 'f' :: 'a' :: 'l' :: 's' :: 'e' :: rest => some (.boolean false, rest)
    | _ => number? text

/-- Read the items of an array and its closing bracket.  A comma may follow the last item. -/
def items? (fuel depth : Nat) (text : List Char) : Option (List Item × List Char) :=
  match fuel with
  | 0 => none
  | fuel + 1 =>
    match skipLines text.length text with
    | ']' :: rest => some ([], rest)
    | text => do
      let (item, rest) ← value? fuel depth text
      match skipLines rest.length rest with
      | ',' :: rest =>
        let (items, rest) ← items? fuel depth rest
        some (item :: items, rest)
      | ']' :: rest => some ([item], rest)
      | _ => none

/-- Read the pairs of an inline table and its closing brace. -/
def pairs? (fuel depth : Nat) (entries : Entries) (text : List Char) :
    Option (Entries × List Char) :=
  match fuel with
  | 0 => none
  | fuel + 1 => do
    let ((path, key), rest) ← key? text
    match rest with
    | '=' :: rest =>
      let (value, rest) ← value? fuel depth (skipBlanks rest)
      let entries ← entries.addValue path key value
      match skipBlanks rest with
      | ',' :: rest => pairs? fuel depth entries rest
      | '\x7d' :: rest => some (entries, rest)
      | _ => none
    | _ => none

end

/-- A document that has been read in part: its tables, and the header path of the open one. -/
structure Draft where
  entries : Entries
  header : List String

/-- Read a header of a single table, after its opening bracket. -/
def tableHeader? (draft : Draft) (text : List Char) : Option (Draft × List Char) := do
  let ((path, key), rest) ← key? text
  match rest with
  | ']' :: rest =>
    let entries ← draft.entries.openTable path key
    let rest ← endLine? rest
    some (⟨entries, path ++ [key]⟩, rest)
  | _ => none

/-- Read a header of one of several tables, after its opening brackets. -/
def tablesHeader? (draft : Draft) (text : List Char) : Option (Draft × List Char) := do
  let ((path, key), rest) ← key? text
  match rest with
  | ']' :: ']' :: rest =>
    let entries ← draft.entries.appendTable path key
    let rest ← endLine? rest
    some (⟨entries, path ++ [key]⟩, rest)
  | _ => none

/-- Read a pair of a key and a value. -/
def pair? (draft : Draft) (text : List Char) : Option (Draft × List Char) := do
  let ((path, key), rest) ← key? text
  match rest with
  | '=' :: rest =>
    let rest := skipBlanks rest
    let (value, rest) ← value? (2 * rest.length + 2) 0 rest
    let entries ← draft.entries.within draft.header (·.addValue path key value)
    let rest ← endLine? rest
    some ({ draft with entries }, rest)
  | _ => none

/-- Read the lines of a document, of which there are at most as many as `fuel`. -/
def readLines? : (fuel : Nat) → Draft → List Char → Option Entries
  | 0, _, _ => none
  | fuel + 1, draft, text =>
    match skipBlanks text with
    | [] => some draft.entries
    | '#' :: rest => (endLine? ('#' :: rest)).bind (readLines? fuel draft)
    | '\n' :: rest => readLines? fuel draft rest
    | '\r' :: '\n' :: rest => readLines? fuel draft rest
    | '[' :: '[' :: rest =>
      (tablesHeader? draft rest).bind (fun (draft, rest) => readLines? fuel draft rest)
    | '[' :: rest =>
      (tableHeader? draft rest).bind (fun (draft, rest) => readLines? fuel draft rest)
    | text => (pair? draft text).bind (fun (draft, rest) => readLines? fuel draft rest)

/-- Read a document.  A byte order mark may come first. -/
def read? (text : List Char) : Option Entries :=
  let text := match text with
    | c :: rest => if c = Char.ofNat 0xfeff then rest else text
    | [] => []
  readLines? (text.length + 1) ⟨[], []⟩ text

end Toml

end WitnessedLog
