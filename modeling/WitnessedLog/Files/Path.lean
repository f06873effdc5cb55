/-!
# Paths

A path is a text whose parts are separated by slashes.  It is absolute if it begins with one.  Empty
parts count for nothing, except that a slash at the end asks for a directory.

The path that a path lies in is found by cutting off its last part.  What is left is not rewritten,
because the length of a path matters to the system.
-/

namespace WitnessedLog

/-- A path, cut into its parts. -/
structure PathParts where
  absolute : Bool
  parts : List String
  trailingSlash : Bool
  deriving DecidableEq

/-- The parts of a path. -/
def PathParts.ofText (path : String) : PathParts where
  absolute := path.toList.head? = some '/'
  parts := ((path.toList.splitOn '/').filter (fun part => !part.isEmpty)).map String.ofList
  trailingSlash := path.toList.getLast? = some '/'

namespace Path

/-- What a path begins with and keeps when it is cut: its root, or the dot of the working
directory. -/
def opening : List Char → List Char
  | '/' :: _ => ['/']
  | ['.'] => ['.']
  | '.' :: '/' :: _ => ['.']
  | _ => []

/-- A path, given from its end, without the empty parts and single dots there. -/
def dropIdle : List Char → List Char
  | [] => []
  | ['.'] => []
  | '/' :: rest => dropIdle rest
  | '.' :: '/' :: rest => dropIdle rest
  | rest => rest

theorem length_dropIdle_le (path : List Char) : (dropIdle path).length ≤ path.length := by
  fun_induction dropIdle path <;> simp <;> omega

/-- The path that a path lies in.  The root and the empty path lie in none. -/
def parent? (path : List Char) : Option (List Char) :=
  match dropIdle (path.drop (opening path).length).reverse with
  | [] => if opening path = ['.'] then some [] else none
  | _ :: front => some (opening path ++ (dropIdle (front.dropWhile (· ≠ '/'))).reverse)

theorem length_opening_le (path : List Char) : (opening path).length ≤ path.length := by
  unfold opening
  split <;> simp

/-- A path is longer than the one it lies in. -/
theorem length_parent?_lt
    {path parent : List Char}
    (h : parent? path = some parent) : parent.length < path.length := by
  have hopening := length_opening_le path
  unfold parent? at h
  split at h
  · split at h
    · rename_i hdot
      obtain rfl := Option.some.inj h
      rw [hdot] at hopening
      exact hopening
    · exact absurd h (by simp)
  · rename_i last front hbody
    obtain rfl := Option.some.inj h
    have hcut := length_dropIdle_le (path.drop (opening path).length).reverse
    have hrest := length_dropIdle_le (front.dropWhile (· ≠ '/'))
    have hfront := (List.dropWhile_sublist (l := front) (· ≠ '/')).length_le
    rw [hbody] at hcut
    simp only [List.length_cons, List.length_reverse, List.length_drop] at hcut
    simp only [List.length_append, List.length_reverse]
    omega

/-- A path and those it lies in, from the inside out, without the root and the empty path. -/
def upward (path : List Char) : List (List Char) :=
  match _h : parent? path with
  | none => []
  | some parent => path :: upward parent
termination_by path.length
decreasing_by exact length_parent?_lt _h

end Path

/-- A path below another one. -/
def joinPath (directory name : String) : String :=
  if directory.toList.getLast? = some '/' then directory ++ name else directory ++ "/" ++ name

end WitnessedLog
