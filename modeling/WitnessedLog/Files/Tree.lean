import WitnessedLog.Files.Path
import WitnessedLog.Files.Script

/-!
# File trees

A model of the files that scripts work on: a finite map from locations to files and directories,
without links.  A location is the list of names that leads to it from the root.  A path is followed
name by name from the root or from the working directory, and each name but the last must lead to a
directory.
-/

namespace WitnessedLog

/-- What is found at a location. -/
inductive FileNode where
  | file (content : Bytes)
  | directory
  deriving DecidableEq

/-- The names that lead from the root to a file or directory. -/
abbrev Location := List String

/-- Files and directories by location.  The root is always a directory. -/
structure FileTree where
  nodes : List (Location × FileNode)
  deriving DecidableEq

namespace FileTree

/-- What is found at a location. -/
def node? (tree : FileTree) (location : Location) : Option FileNode :=
  if location = [] then some .directory
  else (tree.nodes.find? (fun entry => entry.1 = location)).map Prod.snd

/-- The tree with a location set. -/
def set (tree : FileTree) (location : Location) (node : FileNode) : FileTree :=
  ⟨(location, node) :: tree.nodes.filter (fun entry => entry.1 ≠ location)⟩

/-- The content of the file at a location. -/
def content? (tree : FileTree) (location : Location) : Option Bytes :=
  match tree.node? location with
  | some (.file content) => some content
  | _ => none

/-- Follow one name from a location. -/
def follow (tree : FileTree) (location : Location) (name : String) :
    Except SystemError Location :=
  match tree.node? location with
  | none => .error .notFound
  | some (.file _) => .error .notADirectory
  | some .directory =>
    if name = "." then .ok location
    else if name = ".." then .ok location.dropLast
    else if 255 < name.utf8ByteSize then .error .nameTooLong
    else
      match tree.node? (location ++ [name]) with
      | some _ => .ok (location ++ [name])
      | none => .error .notFound

/-- The least number of bytes with which a path is too long. -/
def pathLimit : Nat := 4096

/-- The parts of a path, if the system takes it: it has no zero character, its UTF-8 form stays below
the limit, and it is not empty. -/
def partsOf (path : String) : Except SystemError PathParts :=
  if path.toList.contains (Char.ofNat 0) then .error .invalidName
  else if pathLimit ≤ path.utf8ByteSize then .error .nameTooLong
  else if path = "" then .error .notFound
  else .ok (PathParts.ofText path)

/-- Follow names from the root or from the working directory. -/
def followAll (tree : FileTree) (working : Location) (absolute : Bool) (names : List String) :
    Except SystemError Location :=
  names.foldlM tree.follow (if absolute then [] else working)

/-- The location of what a path names, which must exist. -/
def locate (tree : FileTree) (working : Location) (path : String) :
    Except SystemError Location := do
  let path ← partsOf path
  let location ← tree.followAll working path.absolute path.parts
  if path.trailingSlash ∧ tree.node? location ≠ some .directory then .error .notADirectory
  else .ok location

/-- The directory in which a path would create something, and the last name of the path. -/
def locateNew (tree : FileTree) (working : Location) (path : String) :
    Except SystemError (Location × Option String) := do
  let path ← partsOf path
  let location ← tree.followAll working path.absolute path.parts.dropLast
  if tree.node? location = some .directory then .ok (location, path.parts.getLast?)
  else .error .notADirectory

/-- Whether a last name stands for a new entry of its directory. -/
def isProperName (name : String) : Bool :=
  name ≠ "." && name ≠ ".."

/-- Read the file that a path names. -/
def read (tree : FileTree) (working : Location) (path : String) : Except SystemError Bytes :=
  match tree.locate working path with
  | .error e => .error e
  | .ok location =>
    match tree.node? location with
    | some (.file content) => .ok content
    | some .directory => .error .isADirectory
    | none => .error .notFound

/-- Whether a path names something. -/
def pathExists (tree : FileTree) (working : Location) (path : String) : Bool :=
  (tree.locate working path).toBool

/-- Whether a path names a directory. -/
def isDirectory (tree : FileTree) (working : Location) (path : String) : Bool :=
  match tree.locate working path with
  | .ok location => tree.node? location = some .directory
  | .error _ => false

/-- Create or replace the file that a path names. -/
def writeFile (tree : FileTree) (working : Location) (path : String) (content : Bytes) :
    Except SystemError FileTree :=
  match tree.locateNew working path with
  | .error e => .error e
  | .ok (_, none) => .error .isADirectory
  | .ok (directory, some name) =>
    if !isProperName name || (PathParts.ofText path).trailingSlash then .error .isADirectory
    else if 255 < name.utf8ByteSize then .error .nameTooLong
    else if tree.node? (directory ++ [name]) = some .directory then .error .isADirectory
    else .ok (tree.set (directory ++ [name]) (.file content))

/-- Create the directory that a path names. -/
def makeDirectory (tree : FileTree) (working : Location) (path : String) :
    Except SystemError FileTree :=
  match tree.locateNew working path with
  | .error e => .error e
  | .ok (_, none) => .error .alreadyExists
  | .ok (directory, some name) =>
    if !isProperName name then .error .alreadyExists
    else if 255 < name.utf8ByteSize then .error .nameTooLong
    else if (tree.node? (directory ++ [name])).isSome then .error .alreadyExists
    else .ok (tree.set (directory ++ [name]) .directory)

end FileTree

/-- Where a script runs: the files, the working directory, and refusals that lie ahead.  Each
operation uses up one place of the list of refusals and fails without effect if that place is not
empty. -/
structure Disk where
  tree : FileTree
  working : Location
  refusals : List (Option SystemError)

namespace Disk

/-- The refusal of the next operation, if there is one. -/
def refusal? (disk : Disk) : Option SystemError :=
  disk.refusals.head?.join

/-- The disk with the next refusal used up. -/
def advance (disk : Disk) : Disk :=
  { disk with refusals := disk.refusals.tail }

/-- The answer to a question about the files. -/
def ask {α : Type} (disk : Disk) (answer : Except SystemError α) : Except SystemError α :=
  match disk.refusal? with
  | some e => .error e
  | none => answer

/-- The answer to an attempt to change the files, and the disk after it. -/
def attempt (disk : Disk) (change : Except SystemError FileTree) :
    Except SystemError Unit × Disk :=
  match disk.ask change with
  | .ok tree => (.ok (), { disk.advance with tree })
  | .error e => (.error e, disk.advance)

end Disk

/-- Run a script. -/
def Script.run {α : Type} (disk : Disk) : Script α → α × Disk
  | .done value => (value, disk)
  | .readFile path next =>
    (next (disk.ask (disk.tree.read disk.working path))).run disk.advance
  | .pathExists path next =>
    (next (disk.refusal?.isNone && disk.tree.pathExists disk.working path)).run disk.advance
  | .isDirectory path next =>
    (next (disk.refusal?.isNone && disk.tree.isDirectory disk.working path)).run disk.advance
  | .writeFile path content next =>
    let (answer, disk) := disk.attempt (disk.tree.writeFile disk.working path content)
    (next answer).run disk
  | .makeDirectory path next =>
    let (answer, disk) := disk.attempt (disk.tree.makeDirectory disk.working path)
    (next answer).run disk

end WitnessedLog
