import WitnessedLog.Files.Path
import WitnessedLog.Toml.Document

/-!
# Settings

The command line takes defaults from a configuration file in TOML: the policy used when none is
given, whether that policy is compiled, and the log level.  Unknown keys are ignored, and a value of
the wrong kind makes the whole file unreadable.  A section may also be written as an array of its
values in order.
-/

namespace WitnessedLog

/-- Defaults for the command line. -/
structure Settings where
  /-- the policy used when none is given -/
  policyPath : Option String
  /-- whether that policy is compiled -/
  policyCompiled : Bool
  logLevel : String
  deriving DecidableEq

namespace Settings

/-- The settings without a configuration file. -/
def builtIn : Settings :=
  ⟨none, false, "info"⟩

/-- A text, if the item is one. -/
def text? : Toml.Item → Option String
  | .text value => some value
  | _ => none

/-- A truth value, if the item is one. -/
def boolean? : Toml.Item → Option Bool
  | .boolean value => some value
  | _ => none

/-- Read an item that may be missing. -/
def readOr {α : Type} (missing : α) (read : Toml.Item → Option α) (item : Option Toml.Item) :
    Option α :=
  match item with
  | none => some missing
  | some item => read item

/-- Read the section on the policy: a path and whether it holds a compiled policy. -/
def readPolicySection : Toml.Item → Option (Option String × Bool)
  | .table _ entries => do
    let path ← readOr none (fun item => (text? item).map some)
      (Toml.Entries.get? entries "path")
    let compiled ← readOr false boolean? (Toml.Entries.get? entries "compiled")
    some (path, compiled)
  | .array (path :: rest) => do
    let path ← text? path
    let compiled ← readOr false boolean? rest.head?
    some (some path, compiled)
  | .moment _ => some (none, false)
  | _ => none

/-- Read the section on logging: a level. -/
def readLoggingSection : Toml.Item → Option String
  | .table _ entries => readOr builtIn.logLevel text? (Toml.Entries.get? entries "level")
  | .array items => readOr builtIn.logLevel text? items.head?
  | .moment _ => some builtIn.logLevel
  | _ => none

/-- Read the settings from the entries of a document. -/
def ofEntries (entries : Toml.Entries) : Option Settings := do
  let (policyPath, policyCompiled) ←
    readOr (none, false) readPolicySection (entries.get? "policy")
  let logLevel ← readOr builtIn.logLevel readLoggingSection (entries.get? "logging")
  some ⟨policyPath, policyCompiled, logLevel⟩

/-- Read the settings from the text of a configuration file. -/
def ofText (text : List Char) : Option Settings :=
  (Toml.read? text).bind ofEntries

/-- The configuration file that is written on request. -/
def defaultText : String :=
  "\n".intercalate [
    "# sigsum-verify configuration",
    "",
    "[policy]",
    "# Trust policy used by `sigsum-verify verify` when --policy is not given",
    "# path = \"/etc/sigsum/policy.txt\"",
    "",
    "# Set to true if `path` is a compiled policy (see `sigsum-verify compile`)",
    "# compiled = false",
    "",
    "[logging]",
    "# Log level: trace, debug, info, warn, error",
    "# RUST_LOG overrides this setting",
    "level = \"info\"",
    ""]

end Settings

/-- What the command line takes from its surroundings: the directories that hold configurations. -/
structure Surroundings where
  /-- where configurations are kept, if that has been chosen -/
  configHome : Option String
  /-- the user's own directory by the environment -/
  home : Option String
  /-- the user's own directory by the accounts of the computer -/
  account : Option String
  deriving DecidableEq

/-- The user's own directory.  The environment goes before the accounts, and an empty path does not
count. -/
def Surroundings.homePath? (surroundings : Surroundings) : Option String :=
  (surroundings.home.filter (· ≠ "")).or (surroundings.account.filter (· ≠ ""))

/-- The configuration file used when none is given.  A chosen directory counts only if its path is
absolute. -/
def Surroundings.configPath (surroundings : Surroundings) : String :=
  let ofHome := fun () =>
    match surroundings.homePath? with
    | some home => joinPath home ".config"
    | none => "."
  let directory :=
    match surroundings.configHome with
    | some chosen => if (PathParts.ofText chosen).absolute then chosen else ofHome ()
    | none => ofHome ()
  joinPath (joinPath directory "sigsum-verify") "config.toml"

end WitnessedLog
