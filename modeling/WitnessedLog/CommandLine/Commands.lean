import WitnessedLog.CommandLine.Arguments
import WitnessedLog.Files.Script
import WitnessedLog.LoggingProof.Text
import WitnessedLog.Policy.Compile
import WitnessedLog.Settings
import WitnessedLog.Verification

/-!
# Commands

What the command line does, as scripts of file operations.  Every command either succeeds with
something to show or fails with a complaint, and files are changed only after everything else has
succeeded.
-/

namespace WitnessedLog

/-- Why a command fails. -/
inductive CommandError where
  | configUnreadable (path : String) (cause : String)
  | configInvalid (path : String)
  | configExists (path : String)
  | configDirectory (cause : SystemError)
  | configUnwritable (path : String) (cause : SystemError)
  | noPolicy
  | unreadable (what path : String) (cause : String)
  | unwritable (path : String) (cause : SystemError)
  | submitterKey (cause : EncodingError)
  | prehashedLength
  | compile (cause : CompileError)
  | verify (cause : VerifyError)
  deriving DecidableEq

/-- The sentence shown for a failed command. -/
def CommandError.message : CommandError → String
  | .configUnreadable path cause => "Failed to read config file '" ++ path ++ "': " ++ cause
  | .configInvalid path => "Failed to parse config file '" ++ path ++ "'"
  | .configExists path =>
    "Config file '" ++ path ++ "' already exists (use --force to overwrite)"
  | .configDirectory cause => "Failed to create config directory: " ++ cause.message
  | .configUnwritable path cause =>
    "Failed to write config file '" ++ path ++ "': " ++ cause.message
  | .noPolicy => "No policy given: pass --policy or set policy.path in the config file"
  | .unreadable what path cause =>
    "Failed to read " ++ what ++ " file '" ++ path ++ "': " ++ cause
  | .unwritable path cause => "Failed to write output file '" ++ path ++ "': " ++ cause.message
  | .submitterKey cause => "Invalid submitter key: " ++ cause.message
  | .prehashedLength => "Prehashed message must be exactly 32 bytes"
  | .compile cause => cause.message
  | .verify cause => cause.message

/-- A command: a script that may fail. -/
abbrev CommandScript := ExceptT CommandError Script

namespace CommandScript

/-- Fail unless a value is there. -/
def require {ε α : Type} (complaint : ε → CommandError) (value : Except ε α) : CommandScript α :=
  ExceptT.mk (.done (value.mapError complaint))

/-- Ask for the content of a file. -/
def tryRead (path : String) : CommandScript (Except SystemError Bytes) :=
  ExceptT.mk (.readFile path (fun answer => .done (.ok answer)))

/-- Ask whether there is a file or directory. -/
def pathExists (path : String) : CommandScript Bool :=
  ExceptT.mk (.pathExists path (fun answer => .done (.ok answer)))

/-- Ask for a file to be written. -/
def tryWrite (path : String) (content : Bytes) : CommandScript (Except SystemError Unit) :=
  ExceptT.mk (.writeFile path content (fun answer => .done (.ok answer)))

/-- Read a file. -/
def readFile (what path : String) : CommandScript Bytes := do
  let content ← tryRead path
  require (fun cause => .unreadable what path cause.message) content

/-- Why a file cannot be read as text. -/
def notText : String := "stream did not contain valid UTF-8"

/-- The text of a file, or the reason why there is none. -/
def tryReadText (path : String) : CommandScript (Except String (List Char)) := do
  match ← tryRead path with
  | .error cause => pure (.error cause.message)
  | .ok content =>
    match Utf8.decode? content with
    | some text => pure (.ok text)
    | none => pure (.error notText)

/-- Read the settings from a configuration file. -/
def readSettings (path : String) : CommandScript Settings := do
  let text ← require (.configUnreadable path) (← tryReadText path)
  match Settings.ofText text with
  | some settings => pure settings
  | none => throw (.configInvalid path)

/-- The settings to run with.  A configuration file that is named must exist; the usual one need
not. -/
def settings (surroundings : Surroundings) (config : Option String) : CommandScript Settings := do
  match config with
  | some path => readSettings path
  | none =>
    let path := surroundings.configPath
    if ← pathExists path then readSettings path else pure Settings.builtIn

/-- The policy to verify against: the one named, or else the one of the settings. -/
def loadPolicy (options : VerifyOptions) (settings : Settings) : CommandScript TrustPolicy := do
  let (path, compiled) ←
    match options.policy, settings.policyPath with
    | some path, _ => pure (path, options.compiled)
    | none, some path => pure (path, settings.policyCompiled)
    | none, none => throw .noPolicy
  let content ← readFile "policy" path
  if compiled then
    let policy ← require (fun e => .verify (.compiledPolicy e)) (CompiledPolicy.ofBytes content)
    pure (.compiled policy)
  else
    let text := String.ofList (Utf8.decodeLossy content)
    let policy ← require (fun e => .verify (.policy e)) (Policy.ofText text)
    pure (.tree policy)

/-- Verify a proof of logging. -/
def verify (options : VerifyOptions) (settings : Settings) : CommandScript String := do
  let policy ← loadPolicy options settings
  let keyText := String.ofList (Text.trim options.submitterKey.toList)
  let submitter ← require .submitterKey (Octets.ofHex .publicKey keyText)
  let proofText := String.ofList (Utf8.decodeLossy (← readFile "proof" options.proof))
  let proof ← require (fun e => .verify (.proof e)) (LoggingProof.ofText proofText)
  let message ← readFile "message" options.message
  let verifier := Verifier.ascending Provider.standard
  let session ←
    if options.prehashed then do
      let messageHash ← require (fun _ => .prehashedLength) (Octets.ofBytes .hash message)
      pure (verifier.verifyHash messageHash submitter policy proof)
    else pure (verifier.verifyMessage message submitter policy proof)
  require .verify session.outcome.1
  pure "✅ verified\n"

/-- Compile a policy, and show or write its binary form. -/
def compile (options : CompileOptions) : CommandScript Bytes := do
  let text ← require (.unreadable "policy" options.policy) (← tryReadText options.policy)
  let compiled ← require .compile (Policy.compileText (String.ofList text))
  let output := if options.hex then Statement.bytes (Hex.encode compiled ++ "\n") else compiled
  match options.output with
  | none => pure output
  | some path =>
    require (.unwritable path) (← tryWrite path output)
    pure []

/-- Create the first of some directories, each of which lies in the next one. -/
def makeDirectories : List String → Script (Except SystemError Unit)
  | [] => .done (.ok ())
  | path :: above =>
    let settle := fun (cause : SystemError) => Script.isDirectory path fun found =>
      .done (if found then .ok () else .error cause)
    .makeDirectory path fun
      | .ok () => .done (.ok ())
      | .error .notFound =>
        (makeDirectories above).bind fun
          | .error cause => .done (.error cause)
          | .ok () => .makeDirectory path fun
            | .ok () => .done (.ok ())
            | .error cause => settle cause
      | .error cause => settle cause

/-- Write the default configuration file. -/
def initConfig (path : String) (force : Bool) : CommandScript String := do
  if (← pathExists path) && !force then throw (.configExists path)
  let parents := (Path.upward path.toList).tail.map String.ofList
  let made ← ExceptT.mk ((makeDirectories parents).bind (fun made => .done (.ok made)))
  require .configDirectory made
  require (.configUnwritable path) (← tryWrite path (Statement.bytes Settings.defaultText))
  pure ("✅ Wrote " ++ path ++ "\n")

/-- The line that names the program and its version. -/
def versionLine : String := "sigsum-verify 0.1.0\n"

/-- What is known about this version. -/
def versionText : String :=
  versionLine ++ "Offline verifier for Sigsum proofs of logging\n"
    ++ "Compiled policy format version " ++ toString CompiledPolicy.version.toNat ++ "\n"

/-- Run a command; the answer is what it shows. -/
def ofCommand (surroundings : Surroundings) (config : Option String) :
    Command → CommandScript Bytes
  | .verify options => do
    let settings ← settings surroundings config
    Statement.bytes <$> verify options settings
  | .compile options => do
    let _ ← settings surroundings config
    compile options
  | .initConfig force =>
    Statement.bytes <$> initConfig (config.getD surroundings.configPath) force
  | .version => pure (Statement.bytes versionText)

end CommandScript

/-- How a run of the program ends. -/
structure Outcome where
  exitCode : UInt8
  /-- what is written to standard output -/
  output : Bytes
  /-- what is written to standard error -/
  errors : String
  deriving DecidableEq

namespace Outcome

/-- A run that shows something. -/
def success (output : Bytes) : Outcome :=
  ⟨0, output, ""⟩

/-- A run that fails with a complaint. -/
def failure (cause : CommandError) : Outcome :=
  ⟨1, [], "Error: " ++ cause.message ++ "\n"⟩

/-- A run that is asked for help.  The text of the help is left out. -/
def help : Outcome :=
  success []

/-- A run whose arguments make no sense. -/
def misuse : Outcome :=
  ⟨2, [], "usage"⟩

end Outcome

/-- The run of the program on the given arguments. -/
def commandLine (surroundings : Surroundings) (arguments : List String) : Script Outcome :=
  match Arguments.read? arguments with
  | none => .done Outcome.misuse
  | some .showHelp => .done Outcome.help
  | some .showVersion => .done (Outcome.success (Statement.bytes CommandScript.versionLine))
  | some (.run config command) =>
    (CommandScript.ofCommand surroundings config command).run.bind fun
      | .ok output => .done (Outcome.success output)
      | .error cause => .done (Outcome.failure cause)

end WitnessedLog
