import WitnessedLog.CommandLine.Commands

/-!
# The program

Runs the script of the command line on the files of the computer.
-/

namespace WitnessedLog

/-- The refusal that an error of the system stands for. -/
def SystemError.ofError : IO.Error → SystemError
  | .noFileOrDirectory _ _ _ => .notFound
  | .alreadyExists _ _ _ => .alreadyExists
  | .inappropriateType _ code _ => if code = 20 then .notADirectory else .isADirectory
  | .permissionDenied _ code details => .other code.toNat details
  | .invalidArgument _ code details => .other code.toNat details
  | .resourceExhausted _ code details => .other code.toNat details
  | .otherError code details => .other code.toNat details
  | error => .other 5 (toString error)

/-- Perform an operation on a path that the system can be told. -/
def perform {α : Type} (path : String) (operation : IO α) : BaseIO (Except SystemError α) := do
  if path.toList.contains (Char.ofNat 0) then return .error .invalidName
  match ← operation.toBaseIO with
  | .ok value => return .ok value
  | .error error => return .error (SystemError.ofError error)

/-- Run a script on the files of the computer. -/
def Script.perform {α : Type} : Script α → BaseIO α
  | .done value => pure value
  | .readFile path next => do
    let content ← WitnessedLog.perform path (IO.FS.readBinFile path)
    (next (content.map (fun bytes => bytes.data.toList))).perform
  | .pathExists path next => do
    let found ← WitnessedLog.perform path (IO.FS.realPath path)
    (next found.toBool).perform
  | .isDirectory path next => do
    let found ← WitnessedLog.perform path (IO.FS.realPath (path ++ "/."))
    (next found.toBool).perform
  | .writeFile path content next => do
    let written ← WitnessedLog.perform path (IO.FS.writeBinFile path ⟨content.toArray⟩)
    (next written).perform
  | .makeDirectory path next => do
    let made ← WitnessedLog.perform path (IO.FS.createDir path)
    (next made).perform

end WitnessedLog

/-- Run the command line.  The accounts of the computer are not asked for the user's own directory, so
it has to be in the environment. -/
def main (arguments : List String) : IO UInt32 := do
  let configHome ← IO.getEnv "XDG_CONFIG_HOME"
  let home ← IO.getEnv "HOME"
  let outcome ← (WitnessedLog.commandLine ⟨configHome, home, none⟩ arguments).perform
  let stdout ← IO.getStdout
  stdout.write ⟨outcome.output.toArray⟩
  stdout.flush
  IO.eprint outcome.errors
  return outcome.exitCode.toUInt32
