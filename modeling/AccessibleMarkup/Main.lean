import AccessibleMarkup.CommandLine.Run
import Std.Time

/-!
The program. It looks up the files that its arguments name, runs, and writes what the run leaves
behind.
-/
namespace AccessibleMarkup.CommandLine

open AccessibleMarkup.Files

/-- What is at a place. What cannot be read for another reason than being a directory is taken as
missing. -/
def entryAt (place : Place) : IO Entry := do
  try return .file (← IO.FS.readBinFile place.path.toString)
  catch
    | .inappropriateType .. => return .directory
    | _ => return .missing

/-- The files and directories on the way to the given paths. -/
def lookUp (paths : List String) : IO FileSystem := do
  let mut system : FileSystem := ⟨[], []⟩
  for written in paths do
    let route := Route.ofString written
    for place in route.start.trail route.steps do
      match ← entryAt place with
      | .directory => system := { system with directories := place :: system.directories }
      | .file bytes => system := system.set place bytes
      | .missing => pure ()
  return system

/-- The paths that the arguments of a command name. -/
def mentioned (arguments : List String) : List String :=
  match readArguments arguments with
  | .ok (.run _ (.enhance input output)) => input :: output.toList
  | .ok (.run _ command) => [command.input]
  | _ => []

def readsInput (arguments : List String) : Bool :=
  match readArguments arguments with
  | .ok (.run _ command) => command.input = standardInput
  | _ => false

def timestamp : IO String := do
  let now ← Std.Time.PlainDateTime.now
  return now.format "uuuu-MM-dd'T'HH:mm:ss.SSSSSS"

def runOnMachine (arguments : List String) : IO UInt32 := do
  let before ← lookUp (mentioned arguments)
  let input ← if readsInput arguments then (← IO.getStdin).readBinToEnd else pure ByteArray.empty
  let result := run ⟨before, input, ← timestamp⟩ arguments
  IO.print (String.ofList result.output)
  for file in result.files.files do
    if before.bytes? file.place != some file.bytes then
      IO.FS.writeBinFile file.place.path.toString file.bytes
  for line in result.log do
    IO.eprintln line
  match result.ending with
  | .ok code => return code.toUInt32
  | .error failure =>
    IO.eprintln failure.message
    return 1

end AccessibleMarkup.CommandLine

def main (arguments : List String) : IO UInt32 :=
  AccessibleMarkup.CommandLine.runOnMachine arguments
