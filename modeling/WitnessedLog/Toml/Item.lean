/-!
# TOML documents as data

A document is a table of items.  Numbers and points in time are kept as they were written.  A table
remembers how it came about, since that decides whether later lines may add to it.
-/

namespace WitnessedLog

namespace Toml

/-- How a table came about. -/
inductive Origin where
  /-- by a header of its own -/
  | header
  /-- as a part of the header of another table -/
  | implied
  /-- by a dotted key -/
  | dotted
  /-- between braces -/
  | inline
  deriving DecidableEq

/-- A value, a table, or an array of tables. -/
inductive Item where
  | text (value : String)
  | boolean (value : Bool)
  | integer (numeral : String)
  | float (numeral : String)
  | moment (written : String)
  | array (items : List Item)
  | table (origin : Origin) (entries : List (String × Item))
  /-- tables that share a header, of which the last is open -/
  | tables (closed : List (List (String × Item))) (current : List (String × Item))

/-- The entries of a table, in the order in which their keys first appeared. -/
abbrev Entries := List (String × Item)

namespace Entries

/-- The item under a key. -/
def get? (entries : Entries) (key : String) : Option Item :=
  (entries.find? (fun entry => entry.1 = key)).map Prod.snd

/-- Change the item under a key, or add one; the change may be refused. -/
def alter (key : String) (change : Option Item → Option Item) : Entries → Option Entries
  | [] => (change none).map (fun item => [(key, item)])
  | (name, item) :: rest =>
    if name = key then (change (some item)).map (fun item => (key, item) :: rest)
    else (alter key change rest).map ((name, item) :: ·)

/-- Change the table that a header path leads to.  Tables on the way are created when missing, and
of tables that share a header the last one is meant. -/
def within (path : List String) (change : Entries → Option Entries) (entries : Entries) :
    Option Entries :=
  match path with
  | [] => change entries
  | key :: path =>
    entries.alter key fun
      | none => (within path change []).map (.table .implied)
      | some (.table .inline _) => none
      | some (.table origin inner) => (within path change inner).map (.table origin)
      | some (.tables closed current) => (within path change current).map (.tables closed)
      | some _ => none

/-- Open the table with a header path.  A table is opened once, and not if it has been written with
dotted keys. -/
def openTable (path : List String) (key : String) (entries : Entries) : Option Entries :=
  entries.within path fun inner =>
    inner.alter key fun
      | none => some (.table .header [])
      | some (.table .implied inner) => some (.table .header inner)
      | some _ => none

/-- Add a table to those that share a header. -/
def appendTable (path : List String) (key : String) (entries : Entries) : Option Entries :=
  entries.within path fun inner =>
    inner.alter key fun
      | none => some (.tables [] [])
      | some (.tables closed current) => some (.tables (closed ++ [current]) [])
      | some _ => none

/-- Add a value under a dotted key.  All but the last part of the key lead through tables: new ones,
or ones written with dotted keys.  A table that a header implies may be passed through, but nothing
is put directly into it. -/
def addValue (path : List String) (key : String) (value : Item) (entries : Entries) :
    Option Entries :=
  match path with
  | [] =>
    entries.alter key fun
      | none => some value
      | some _ => none
  | first :: rest =>
    entries.alter first fun
      | none => (addValue rest key value []).map (.table .dotted)
      | some (.table .dotted inner) => (addValue rest key value inner).map (.table .dotted)
      | some (.table .implied inner) =>
        if rest.isEmpty then none else (addValue rest key value inner).map (.table .implied)
      | some (.tables closed current) =>
        if rest.isEmpty then none else (addValue rest key value current).map (.tables closed)
      | some _ => none

end Entries

end Toml

end WitnessedLog
