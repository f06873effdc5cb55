/-!
# Command-line arguments

The arguments name one of four commands and its options.  An option is written `--name value` or
`--name=value` and a switch `--name`; each is given at most once.  The configuration file may be
named before or after the command, and after it counts.  Arguments are read from left to right: the
first mistake ends the reading, and so does the first request for help.
-/

namespace WitnessedLog

/-- What to verify. -/
structure VerifyOptions where
  message : String
  submitterKey : String
  proof : String
  policy : Option String
  compiled : Bool
  prehashed : Bool
  deriving DecidableEq

/-- What to compile. -/
structure CompileOptions where
  policy : String
  output : Option String
  hex : Bool
  deriving DecidableEq

/-- A command with its options. -/
inductive Command where
  | verify (options : VerifyOptions)
  | compile (options : CompileOptions)
  | initConfig (force : Bool)
  | version
  deriving DecidableEq

/-- What the arguments ask for. -/
inductive Request where
  | run (config : Option String) (command : Command)
  | showVersion
  | showHelp
  deriving DecidableEq

namespace Arguments

/-- Why the arguments are read no further. -/
inductive Stop where
  /-- a mistake in usage -/
  | misuse
  /-- a request for help -/
  | help
  deriving DecidableEq

/-- The options and switches that a command knows. -/
structure Vocabulary where
  options : List String
  switches : List String

/-- The options and switches that were given. -/
structure Given where
  options : List (String × String)
  switches : List String

/-- The value of an option. -/
def Given.option? (given : Given) (name : String) : Option String :=
  (given.options.find? (fun entry => entry.1 = name)).map Prod.snd

/-- Whether a switch was given. -/
def Given.switch (given : Given) (name : String) : Bool :=
  given.switches.contains name

/-- An argument of the form `--name` or `--name=value`. -/
def long? (argument : String) : Option (String × Option String) :=
  match argument.toList with
  | '-' :: '-' :: rest =>
    let name := rest.takeWhile (· != '=')
    match rest.drop name.length with
    | [] => some (String.ofList name, none)
    | _ :: value => some (String.ofList name, some (String.ofList value))
  | _ => none

/-- Whether an argument cannot be the value of an option: a dash on its own can. -/
def looksLikeOption (argument : String) : Bool :=
  argument.toList.head? = some '-' && argument ≠ "-"

/-- Whether a value suits an option.  Only the submitter key may be empty. -/
def suits (name value : String) : Bool :=
  name = "submitter-key" || value ≠ ""

/-- Note the value of an option that has none yet. -/
def Given.addOption (given : Given) (name value : String) : Except Stop Given :=
  if (given.option? name).isSome || !suits name value then .error .misuse
  else .ok { given with options := given.options ++ [(name, value)] }

/-- Note a switch that has not been given yet. -/
def Given.addSwitch (given : Given) (name : String) : Except Stop Given :=
  if given.switch name then .error .misuse
  else .ok { given with switches := given.switches ++ [name] }

/-- Whether an argument asks for help.  Letters behind the short form are not looked at. -/
def asksForHelp (argument : String) : Bool :=
  argument = "--help" || ['-', 'h'].isPrefixOf argument.toList

/-- Collect the options and switches of a command. -/
def collect (known : Vocabulary) (given : Given) : List String → Except Stop Given
  | [] => .ok given
  | argument :: rest =>
    if argument = "--" then
      if rest.isEmpty then .ok given else .error .misuse
    else if asksForHelp argument then .error .help
    else
      match long? argument with
      | none => .error .misuse
      | some (name, some value) =>
        if known.options.contains name then
          match given.addOption name value with
          | .ok given => collect known given rest
          | .error stop => .error stop
        else .error .misuse
      | some (name, none) =>
        if known.switches.contains name then
          match given.addSwitch name with
          | .ok given => collect known given rest
          | .error stop => .error stop
        else if known.options.contains name then
          match rest with
          | [] => .error .misuse
          | value :: rest =>
            if looksLikeOption value then .error .misuse
            else
              match given.addOption name value with
              | .ok given => collect known given rest
              | .error stop => .error stop
        else .error .misuse

/-- The options and switches of each command. -/
def vocabulary? (command : String) : Option Vocabulary :=
  match command with
  | "verify" =>
    some ⟨["config", "message", "submitter-key", "proof", "policy"], ["compiled", "prehashed"]⟩
  | "compile" => some ⟨["config", "policy", "output"], ["hex"]⟩
  | "init-config" => some ⟨["config"], ["force"]⟩
  | "version" => some ⟨["config"], []⟩
  | _ => none

/-- The command with the options and switches given, if none that it needs is missing. -/
def command? (name : String) (given : Given) : Option Command :=
  match name with
  | "verify" => do
    let message ← given.option? "message"
    let submitterKey ← given.option? "submitter-key"
    let proof ← given.option? "proof"
    some (.verify ⟨message, submitterKey, proof, given.option? "policy", given.switch "compiled",
      given.switch "prehashed"⟩)
  | "compile" => do
    let policy ← given.option? "policy"
    some (.compile ⟨policy, given.option? "output", given.switch "hex"⟩)
  | "init-config" => some (.initConfig (given.switch "force"))
  | "version" => some .version
  | _ => none

/-- Read the arguments behind the name of a command. -/
def readCommand (config : Option String) (name : String) (known : Vocabulary)
    (arguments : List String) : Except Stop Request := do
  let given ← collect known ⟨[], []⟩ arguments
  match command? name given with
  | some command => .ok (.run ((given.option? "config").or config) command)
  | none => .error .misuse

/-- Read the arguments behind the word `help`: at most the name of a command, or that word again. -/
def readTopic : List String → Stop
  | [] => .help
  | [topic] => if topic = "help" || (vocabulary? topic).isSome then .help else .misuse
  | _ => .misuse

/-- Read the arguments up to the command, and then the command. -/
def readFrom (config : Option String) : List String → Except Stop Request
  | [] => .error .misuse
  | argument :: rest =>
    match vocabulary? argument with
    | some known => readCommand config argument known rest
    | none =>
      if argument = "help" then .error (readTopic rest)
      else if asksForHelp argument then .error .help
      else if argument = "--version" ∨ ['-', 'V'].isPrefixOf argument.toList then .ok .showVersion
      else
        match long? argument, config with
        | some ("config", some path), none =>
          if suits "config" path then readFrom (some path) rest else .error .misuse
        | some ("config", none), none =>
          match rest with
          | [] => .error .misuse
          | path :: rest =>
            if looksLikeOption path || !suits "config" path then .error .misuse
            else readFrom (some path) rest
        | _, _ => .error .misuse

/-- Read the arguments; nothing is a mistake in usage. -/
def read? (arguments : List String) : Option Request :=
  match readFrom none arguments with
  | .ok request => some request
  | .error .help => some .showHelp
  | .error .misuse => none

end Arguments

end WitnessedLog
