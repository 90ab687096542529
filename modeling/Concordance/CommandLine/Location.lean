import Concordance.CommandLine.Path

/-!
# Locations

A location is a place in the tree of directories, where paths that are written in many
ways meet. A `FileSystem` tells what stands at some places from the start: directories,
links to other places, and files that are always empty. `FileSystem.locate?` follows a
path through them.
-/

namespace Concordance.CommandLine

/-- The names that lead to a place from the root, the last one first. -/
abbrev Location := List String

/-- What stands at a place from the start. -/
inductive Fixture where
  /-- A directory that takes files. -/
  | openDirectory
  /-- A directory that takes none. -/
  | closedDirectory
  | link (target : Location)
  | emptyFile
  deriving DecidableEq, Repr

/-- Whether there are places below this one. -/
def Fixture.isDirectory : Fixture → Bool
  | openDirectory | closedDirectory => true
  | link _ | emptyFile => false

/-- What one system has before a command runs, and the sizes it bears. -/
structure FileSystem where
  /-- The directory from which a path leads that does not lead from the root. -/
  working : Location
  fixtures : List (Location × Fixture)
  /-- The bytes of the longest name of a file. -/
  maxNameSize : Nat
  /-- The bytes of the longest path. -/
  maxPathSize : Nat
  deriving DecidableEq, Repr

namespace FileSystem
variable (system : FileSystem)

/-- What the system has at a place. -/
def fixture? (location : Location) : Option Fixture := system.fixtures.lookup location

/-- Whether a directory of the system stands at a place. -/
def isDirectory (location : Location) : Bool :=
  (system.fixture? location).any Fixture.isDirectory

/-- Whether a place is one for files: its directory takes them. -/
def takesFile (location : Location) : Bool :=
  system.fixture? location = none && system.fixture? location.tail = some .openDirectory

/-- The place with this name in a directory. A link leads to its target, which is no link. -/
def child (directory : Location) (name : String) : Location :=
  match system.fixture? (name :: directory) with
  | some (.link target) => target
  | _ => name :: directory

/-- The directory to which a name leads from a directory. The root is above itself. -/
def enter? (directory : Location) (name : String) : Option Location :=
  let location :=
    if name = "" ∨ name = "." then directory
    else if name = ".." then directory.tail
    else system.child directory name
  if system.isDirectory location then some location else none

/-- The place of the file to which a path leads. None if it leads to a directory or through
something else than directories, or is too long. -/
def locate? (path : String) : Option Location := do
  let start := if path.startsWith "/" then [] else system.working
  match (path.splitOn "/").reverse with
  | [] => none
  | name :: names =>
    let directory ← names.reverse.foldlM system.enter? start
    let location := system.child directory name
    if system.maxPathSize < path.utf8ByteSize ∨ system.maxNameSize < name.utf8ByteSize
        ∨ Path.isDirectory name ∨ system.isDirectory location then none
    else some location

end FileSystem

end Concordance.CommandLine
