import Std.Data.ExtTreeMap
import Concordance.CommandLine.Location
import Concordance.Varint

/-!
# Files

The commands need three operations on files: to read one, to write one and to give
one another name. `Files.memory` has them over a table of files by their locations.
-/

namespace Concordance.CommandLine

/-- Operations on files. Reading gives nothing, and writing and renaming say no, where they
fail. -/
structure Files (m : Type → Type) where
  read : String → m (Option Bytes)
  write : String → Bytes → m Bool
  rename : (source target : String) → m Bool

namespace Files

/-- A table of files by their places. -/
abbrev Table := Std.ExtTreeMap Location Bytes

/-- The operations over a table of the files that stand beside what a system has from the
start. -/
def memory (system : FileSystem) : Files (StateM Table) where
  read path := do
    match system.locate? path with
    | none => return none
    | some file =>
      if system.fixture? file = some .emptyFile then return some #[]
      return (← get)[file]?
  write path bytes := do
    match system.locate? path with
    | none => return false
    | some file =>
      if !system.takesFile file then return false
      modify (·.insert file bytes)
      return true
  rename source target := do
    match system.locate? source, system.locate? target with
    | some source, some target =>
      if !system.takesFile target then return false
      let table ← get
      match table[source]? with
      | none => return false
      | some bytes =>
        set ((table.erase source).insert target bytes)
        return true
    | _, _ => return false

end Files

end Concordance.CommandLine
