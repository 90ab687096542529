import Concordance.CommandLine

/-!
# The program

Does what the arguments ask for over the files of the system and prints the
outcome.
-/

namespace Concordance

/-- The operations on the files of the system. -/
def systemFiles : CommandLine.Files IO where
  read path := do
    try
      return some (← IO.FS.readBinFile path).data
    catch _ => return none
  write path bytes := do
    try
      IO.FS.writeBinFile path ⟨bytes⟩
      return true
    catch _ => return false
  rename source target := do
    try
      IO.FS.rename source target
      return true
    catch _ => return false

/-- The status of a program that was stopped: 128 and the number of the signal to abort. -/
def stoppedStatus : UInt32 := 134

end Concordance

def main (arguments : List String) : IO UInt32 := do
  let outcome ← Concordance.CommandLine.run .ample Concordance.systemFiles arguments
  for value in outcome.printed do
    IO.println value.render
  if let some text := outcome.text? then
    IO.println text
  if let some complaint := outcome.complaint? then
    IO.eprintln complaint
  return outcome.status?.getD Concordance.stoppedStatus
