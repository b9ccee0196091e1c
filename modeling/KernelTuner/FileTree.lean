import KernelTuner.Error
import KernelTuner.Table

/-!
Contract: the files that can be read, and how a path leads to one.

Owns: locations in a tree of directories, the walk along the names of a path,
reading a file as text, and writing one.

A path is followed name by name and every name but the last has to lead to a
directory. So `missing/../file` is refused although `file` is present, and so is
`file/` when `file` is not a directory.
-/

set_option autoImplicit false

namespace KernelTuner

/-- What stands at a location. -/
inductive FileEntry where
  | file (content : ByteArray)
  | directory

/-- The names on the way from the root, the last one first. The root is the empty
list. -/
abbrev Location := List String

structure FileTree where
  /-- What stands at each location below the root. -/
  entries : Table Location FileEntry := {}
  /-- Where paths start that do not start at the root. -/
  workingDirectory : Location := []

namespace FileTree

/-- Most bytes that a name may have. -/
def nameLimit : Nat := 255

/-- Most bytes that a path may have. -/
def pathLimit : Nat := 4095

def entry? (tree : FileTree) : Location → Option FileEntry
  | [] => some .directory
  | location => tree.entries.get? location

/-- Goes along one name. The empty name and `.` stay where they are, and `..` leads
upwards. -/
def step (tree : FileTree) (location : Location) (name : String) : Except ReadError Location :=
  match tree.entry? location with
  | some (.file _) => .error .notDirectory
  | _ =>
      if name = "" ∨ name = "." then .ok location
      else if name = ".." then .ok location.tail
      else if nameLimit < name.utf8ByteSize then .error .nameTooLong
      else match tree.entry? (name :: location) with
        | some _ => .ok (name :: location)
        | none => .error .notFound

/-- Goes along one name and makes a directory where nothing stands. -/
def enter (position : FileTree × Location) (name : String) :
    Except ReadError (FileTree × Location) :=
  let (tree, location) := position
  match tree.step location name with
  | .ok next => .ok (tree, next)
  | .error .notFound =>
      let next := name :: location
      .ok ({ tree with entries := tree.entries.insert next .directory }, next)
  | .error cause => .error cause

/-- Where a path starts. -/
def start (tree : FileTree) (path : String) : Location :=
  if path.startsWith "/" then [] else tree.workingDirectory

/-- The names of a path. Slashes at its ends and doubled ones give empty names. -/
def names (path : String) : List String := path.splitOn "/"

/-- The location under `path`. -/
def locate (tree : FileTree) (path : String) : Except ReadError Location :=
  if path.contains '\x00' then .error .malformedPath
  else if path.isEmpty then .error .notFound
  else if pathLimit < path.utf8ByteSize then .error .nameTooLong
  else (names path).foldlM tree.step (tree.start path)

/-- The text of the file under `path`. -/
def readText (tree : FileTree) (path : String) : Except ReadError String := do
  match tree.entry? (← tree.locate path) with
  | none => .error .notFound
  | some .directory => .error .isDirectory
  | some (.file content) =>
      match String.fromUTF8? content with
      | some text => .ok text
      | none => .error .notText

/-- Puts `content` under `path`, in place of a file that stands there. Directories
missing on the way are made. -/
def write (tree : FileTree) (path : String) (content : ByteArray) : Except ReadError FileTree := do
  let (tree, above) ← (names path).dropLast.foldlM enter (tree, tree.start path)
  let name := (names path).getLastD ""
  let location ←
    match tree.step above name with
    | .error .notFound => .ok (name :: above)
    | result => result
  match tree.entry? location with
  | some .directory => .error .isDirectory
  | _ => .ok { tree with entries := tree.entries.insert location (.file content) }

end FileTree

end KernelTuner
