import SicXe.CommandLine.Session

/-!
# The program

Reads the files that the arguments name, runs the command line on their contents, writes the symbol
map, and prints what the run said.
-/
namespace SicXe.CommandLine

/-- The content of a file, if it can be read. -/
def readFile? (path : String) : IO (Option ByteArray) := do
  try return some (← IO.FS.readBinFile path)
  catch _ => return none

/-- The files with these paths that can be read, as they are now. -/
def snapshot (paths : List String) : IO (List (String × ByteArray)) := do
  let contents ← paths.mapM fun path => do return (← readFile? path).map (path, ·)
  return contents.filterMap id

/-- Writes a file, and tells whether that was possible. -/
def tryWrite (path text : String) : IO Bool := do
  try
    IO.FS.writeFile path text
    return true
  catch _ => return false

/-- Runs a command line on the files as they are. The map is written before it is known whether it
can be, so a run that is refused it is run again without. -/
def runHere (arguments : List String) : IO UInt32 := do
  let paths := match Formats.standard.parse arguments with
    | .ok i => i.readPaths
    | .error _ => []
  let contents ← snapshot paths
  let files : Files := ⟨fun path => contents.lookup path, fun _ => true⟩
  let result := run arguments files
  let written ← match result.written with
    | none => pure true
    | some (path, text) => tryWrite path text
  let result := if written then result else run arguments { files with canWrite := fun _ => false }
  IO.print result.output
  return result.exitCode

end SicXe.CommandLine

def main (arguments : List String) : IO UInt32 := SicXe.CommandLine.runHere arguments
