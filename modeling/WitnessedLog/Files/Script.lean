import WitnessedLog.Bytes

/-!
# Scripts of file operations

A command works on files only through the operations listed here.  A script is a command with the
operations left open: it names the next operation and says how to go on with its answer.  Scripts are
run on a model of a file tree, or on the files of a computer.
-/

namespace WitnessedLog

/-- Why the system refuses a file operation. -/
inductive SystemError where
  | notFound
  | alreadyExists
  | notADirectory
  | isADirectory
  | nameTooLong
  | invalidName
  | other (number : Nat) (text : String)
  deriving DecidableEq

/-- The sentence shown for a refused file operation. -/
def SystemError.message : SystemError → String
  | .notFound => "No such file or directory (os error 2)"
  | .alreadyExists => "File exists (os error 17)"
  | .notADirectory => "Not a directory (os error 20)"
  | .isADirectory => "Is a directory (os error 21)"
  | .nameTooLong => "File name too long (os error 36)"
  | .invalidName => "file name contained an unexpected NUL byte"
  | .other number text => s!"{text} (os error {number})"

/-- A computation whose file operations are left open. -/
inductive Script (α : Type) where
  | done (value : α)
  /-- read a whole file -/
  | readFile (path : String) (next : Except SystemError Bytes → Script α)
  /-- ask whether there is a file or directory -/
  | pathExists (path : String) (next : Bool → Script α)
  /-- ask whether there is a directory -/
  | isDirectory (path : String) (next : Bool → Script α)
  /-- create or replace a file -/
  | writeFile (path : String) (content : Bytes) (next : Except SystemError Unit → Script α)
  /-- create a directory in an existing one -/
  | makeDirectory (path : String) (next : Except SystemError Unit → Script α)

namespace Script

/-- Go on with the value of a script. -/
def bind {α β : Type} (script : Script α) (next : α → Script β) : Script β :=
  match script with
  | .done value => next value
  | .readFile path rest => .readFile path (fun answer => (rest answer).bind next)
  | .pathExists path rest => .pathExists path (fun answer => (rest answer).bind next)
  | .isDirectory path rest => .isDirectory path (fun answer => (rest answer).bind next)
  | .writeFile path content rest =>
    .writeFile path content (fun answer => (rest answer).bind next)
  | .makeDirectory path rest => .makeDirectory path (fun answer => (rest answer).bind next)

instance : Monad Script where
  pure := .done
  bind := bind

end Script

end WitnessedLog
