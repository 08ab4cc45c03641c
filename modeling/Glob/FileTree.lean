import Glob.FilePath
import Glob.Text.Printable
/-!
# Files and directories

A `FileTree` holds what files and directories there are, and the directory from which relative paths
lead on.  A `Location` is where a path leads: the names on the way from the root.  Every name on the
way has to be that of a directory, also before a `..`; there are no links.

Names and paths have a greatest length in bytes.  A path that is too long is refused; one with a name
that is too long is refused where the way gets to the name, so not if the way ends before.

`makeDirectories` makes a directory with all that lead to it, as far as they are missing.
-/
namespace Glob

/-- The names on the way from the root. -/
abbrev Location := List Text

inductive Entry
  | directory
  | file (contents : Bytes)

structure FileTree where
  workingDirectory : Location
  /-- What is at each location, but for the root, which is always a directory. -/
  entries : List (Location × Entry)

def FilePath.up : Text := [Mark.dot, Mark.dot]

/-- The name of the file `name` in the directory `p`, where `p` is shown as it is. -/
def FilePath.inside (p : FilePath) (name : String) : Text :=
  let directory := p.toText
  directory ++ (if directory.getLast? = some Mark.slash then [] else [Mark.slash]) ++ Text.of name

def nameLimit : Nat := 255

def pathLimit : Nat := 4095

inductive FileFailure
  | missing (path : Text)
  /-- A file has the name already. -/
  | taken (path : Text)
  | notADirectory (path : Text)
  | isADirectory (path : Text)
  | tooLong (path : Text)
  | zeroInName
  deriving DecidableEq, Repr

def FileFailure.message : FileFailure → Text
  | .missing path => Text.of "[Errno 2] No such file or directory: " ++ path.quoted
  | .taken path => Text.of "[Errno 17] File exists: " ++ path.quoted
  | .notADirectory path => Text.of "[Errno 20] Not a directory: " ++ path.quoted
  | .isADirectory path => Text.of "[Errno 21] Is a directory: " ++ path.quoted
  | .tooLong path => Text.of "[Errno 36] File name too long: " ++ path.quoted
  | .zeroInName => Text.of "embedded null byte"

namespace FileTree

def entry? (t : FileTree) : Location → Option Entry
  | [] => some .directory
  | location => t.entries.lookup location

def isDirectory (t : FileTree) (location : Location) : Bool :=
  match t.entry? location with
  | some .directory => true
  | _ => false

def origin (t : FileTree) (p : FilePath) : Location :=
  if p.isAbsolute then [] else t.workingDirectory

def further (location : Location) (component : Text) : Location :=
  if component = FilePath.up then location.dropLast else location ++ [component]

/-- Follows the components from a location.  `path` is what failures name. -/
def walk (t : FileTree) (path : Text) (location : Location) :
    List Text → Except FileFailure Location
  | [] => .ok location
  | c :: rest =>
    match t.entry? location with
    | none => .error (.missing path)
    | some (.file _) => .error (.notADirectory path)
    | some .directory =>
      if nameLimit < Utf8.size c then .error (.tooLong path)
      else t.walk path (further location c) rest

/-- Where a path leads, whether or not there is something. -/
def resolve (t : FileTree) (p : FilePath) : Except FileFailure Location :=
  let path := p.toText
  if path.contains 0 then .error .zeroInName
  else if pathLimit < Utf8.size path then .error (.tooLong path)
  else t.walk path (t.origin p) p.components

def find? (t : FileTree) (p : FilePath) : Option Entry :=
  match t.resolve p with
  | .ok location => t.entry? location
  | .error _ => none

/-- Whether there is something at a path.  For one that is too long there is no answer. -/
def holds (t : FileTree) (p : FilePath) : Except FileFailure Bool :=
  match t.resolve p with
  | .ok location => .ok (t.entry? location).isSome
  | .error (.tooLong path) => .error (.tooLong path)
  | .error _ => .ok false

/-- The location that a path names by its words alone. -/
def named (t : FileTree) (p : FilePath) : Location :=
  p.components.foldl further (t.origin p)

/-! ## Changing the tree -/

def put (t : FileTree) (location : Location) (e : Entry) : FileTree :=
  { t with entries := (location, e) :: t.entries.filter (·.1 ≠ location) }

def remove (t : FileTree) (location : Location) : FileTree :=
  { t with entries := t.entries.filter fun e => !location.isPrefixOf e.1 }

/-- Puts an entry at a location, and directories on the way to it where there is nothing. -/
def write (t : FileTree) (location : Location) (e : Entry) : FileTree :=
  let above := (List.range (location.length - 1)).map fun i => location.take (i + 1)
  (above.foldl (fun t p => if (t.entry? p).isSome then t else t.put p .directory) t).put location e

def makeDirectory (t : FileTree) (p : FilePath) : Except FileFailure FileTree :=
  match t.resolve p with
  | .error f => .error f
  | .ok location =>
    match t.entry? location with
    | some .directory => .ok t
    | some (.file _) => .error (.taken p.toText)
    | none => .ok (t.put location .directory)

def makeOnTheWay (t : FileTree) (p : FilePath) : Except FileFailure FileTree :=
  if (t.find? p).isSome then .ok t else t.makeDirectory p

def makeDirectories (t : FileTree) (p : FilePath) : Except FileFailure FileTree :=
  match p.ancestors.foldlM makeOnTheWay t with
  | .ok t => t.makeDirectory p
  | .error f => .error f

end FileTree

end Glob
