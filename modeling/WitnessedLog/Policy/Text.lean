import WitnessedLog.Policy
import WitnessedLog.Text.Decimal
import WitnessedLog.Text.Line

/-!
# Policies as text

A policy is written one directive per line:

    log <public key> [url]
    witness <name> <public key> [url]
    group <name> <any | all | threshold> <member> ...
    quorum <name>

A number sign starts a comment.  Names of witnesses and groups share one name space, are defined
before they are used, and are defined once; `none` is the name of the quorum that is always
satisfied.
-/

namespace WitnessedLog

namespace Policy

/-- What has been read so far: the draft, and the rules that names stand for. -/
structure Reader where
  draft : Draft
  names : List (String × Quorum KeyHash)

namespace Reader

/-- Before the first line only `none` is a name. -/
def start : Reader :=
  ⟨Draft.empty, [("none", Quorum.unconditional)]⟩

/-- The rule that a name stands for. -/
def find? (reader : Reader) (name : String) : Option (Quorum KeyHash) :=
  (reader.names.find? (fun binding => binding.1 = name)).map Prod.snd

/-- The rule that a name stands for, or the complaint that there is none. -/
def resolve (reader : Reader) (name : String) : Except PolicyError (Quorum KeyHash) :=
  match reader.find? name with
  | some quorum => .ok quorum
  | none => .error (.undefinedName name)

/-- Let a name stand for a rule. -/
def assign (reader : Reader) (name : String) (quorum : Quorum KeyHash) : Reader :=
  { reader with names := (name, quorum) :: reader.names }

/-- Complain about a name that already stands for a rule. -/
def requireUnused (reader : Reader) (name : String) : Except PolicyError Unit :=
  match reader.find? name with
  | some _ => .error (.duplicateName name)
  | none => .ok ()

end Reader

/-- Read a public key.  A wrong length has an error of its own, unlike other faults of encoding. -/
def readKey (text : String) : Except PolicyError PublicKey :=
  match Hex.decode text with
  | .error cause => .error (.invalidKeyEncoding cause)
  | .ok bytes =>
    match Octets.ofBytes .publicKey bytes with
    | .ok key => .ok key
    | .error _ => .error .invalidKeyLength

/-- Read the threshold of a group of the given size. -/
def readThreshold (text : String) (size : Nat) : Except PolicyError Nat :=
  match text with
  | "any" => .ok 1
  | "all" => .ok size
  | numeral =>
    match Text.readNumber? numeral.toList with
    | some threshold => .ok threshold.toNat
    | none => .error (.invalidThreshold 0 size)

namespace Reader

/-- Trust a log with the given key and address. -/
def addLog (reader : Reader) (key : String) (url : Option String) : Except PolicyError Reader := do
  let publicKey ← readKey key
  let draft ← reader.draft.addLog ⟨publicKey, url⟩
  .ok { reader with draft }

/-- Trust a witness with the given name, key and address. -/
def addWitness (reader : Reader) (name key : String) (url : Option String) :
    Except PolicyError Reader := do
  reader.requireUnused name
  let publicKey ← readKey key
  let witness : Entity := ⟨publicKey, url⟩
  let draft ← reader.draft.addWitness witness
  .ok (Reader.assign { reader with draft } name (.witness witness.name))

/-- Define a group of at least one member. -/
def addGroup (reader : Reader) (name threshold : String) (members : List String) :
    Except PolicyError Reader := do
  reader.requireUnused name
  let threshold ← readThreshold threshold members.length
  let members ← members.mapM reader.resolve
  let group ← Quorum.ofThreshold threshold members
  .ok (reader.assign name group)

/-- Choose the quorum by its name. -/
def setQuorum (reader : Reader) (name : String) : Except PolicyError Reader := do
  let quorum ← reader.resolve name
  let draft ← reader.draft.setQuorum quorum
  .ok { reader with draft }

/-- Follow one directive, given by its words. -/
def follow (reader : Reader) : List String → Except PolicyError Reader
  | [] => .ok reader
  | "log" :: arguments =>
    match arguments with
    | [key] => reader.addLog key none
    | [key, url] => reader.addLog key (some url)
    | _ => .error .logSyntax
  | "witness" :: arguments =>
    match arguments with
    | [name, key] => reader.addWitness name key none
    | [name, key, url] => reader.addWitness name key (some url)
    | _ => .error .witnessSyntax
  | "group" :: arguments =>
    match arguments with
    | name :: threshold :: member :: members => reader.addGroup name threshold (member :: members)
    | _ => .error .groupSyntax
  | "quorum" :: arguments =>
    match arguments with
    | [name] => reader.setQuorum name
    | _ => .error .quorumSyntax
  | keyword :: _ => .error (.unknownKeyword keyword)

/-- The words of a line before its comment. -/
def directive (line : List Char) : List String :=
  Text.words (line.takeWhile (· != '#'))

/-- Read one line. -/
def readLine (reader : Reader) (line : List Char) : Except PolicyError Reader :=
  reader.follow (directive line)

end Reader

/-- Read a policy from its text. -/
def ofText (text : String) : Except PolicyError Policy := do
  let reader ← (Text.lines text.toList).foldlM Reader.readLine Reader.start
  reader.draft.finalize

end Policy

end WitnessedLog
