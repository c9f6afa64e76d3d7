import AccessibleMarkup.Failure
import AccessibleMarkup.Files.Place
import AccessibleMarkup.Text.LineEnd
import AccessibleMarkup.Text.Utf8

/-!
Files, as a map from places to bytes. Files hold text as UTF-8; reading one unifies its line ends,
writing one changes nothing. A written path is followed step by step, and every place that it
leaves has to be a directory.
-/
namespace AccessibleMarkup.Files

open AccessibleMarkup.Text

structure File where
  place : Place
  bytes : ByteArray

/-- The files and directories that are there. A directory that holds one of them need not be
listed, nor those that are known without names. -/
structure FileSystem where
  files : List File
  directories : List Place

inductive Entry where
  | file (bytes : ByteArray)
  | directory
  | missing

/-- The greatest size of a name, in bytes of UTF-8. -/
def maxNameSize : Nat := 255

/-- The greatest size of a written path, in bytes of UTF-8. -/
def maxPathSize : Nat := 4095

namespace FileSystem

def bytes? (system : FileSystem) (place : Place) : Option ByteArray :=
  (system.files.find? fun file => file.place = place).map (·.bytes)

/-- Something that is there lies inside the place or at it. -/
def holdsEntry (system : FileSystem) (place : Place) : Bool :=
  (system.files.map (·.place) ++ system.directories).any (·.isWithin place)

def entry (system : FileSystem) (place : Place) : Entry :=
  match system.bytes? place with
  | some bytes => .file bytes
  | none => if place.names.isEmpty || system.holdsEntry place then .directory else .missing

/-- The files when one of them holds these bytes instead. -/
def set (system : FileSystem) (place : Place) (bytes : ByteArray) : FileSystem :=
  { system with
    files := ⟨place, bytes⟩ :: system.files.filter fun file => file.place ≠ place }

def enter (system : FileSystem) (place : Place) (step : Step) : Except FileFault Place :=
  match system.entry place, step with
  | .missing, _ => .error .missing
  | .file _, _ => .error .notDirectory
  | .directory, .down name =>
    if maxNameSize < Utf8.byteLength name then .error .tooLong else .ok (place.child name)
  | .directory, step => .ok (place.step step)

def follow (system : FileSystem) (place : Place) (steps : List Step) : Except FileFault Place :=
  steps.foldlM system.enter place

/-- The route of a path that can be followed at all. -/
def routeOf (written : String) : Except FileFault Route :=
  if written.contains '\x00' then .error .nullCharacter
  else if written.isEmpty then .error .missing
  else if maxPathSize < written.utf8ByteSize then .error .tooLong
  else .ok (Route.ofString written)

/-- The place of something that a path names. -/
def find (system : FileSystem) (written : String) : Except FileFault Place := do
  let route ← routeOf written
  system.follow route.start route.stepsInto

/-- The place of a file that a path names, which need not be there; its directory has to be. A path
with a slash at its end names no file, even if there is one. -/
def findTarget (system : FileSystem) (written : String) : Except FileFault Place := do
  let route ← routeOf written
  let directory ← system.follow route.start route.steps.dropLast
  match system.entry directory with
  | .missing => throw .missing
  | .file _ => throw .notDirectory
  | .directory =>
    if route.closed then throw .directory
    else
      let place ← system.follow directory (route.steps.getLast?).toList
      match system.entry place with
      | .directory => throw .directory
      | _ => pure place

/-- A path leads to something. It leads to nothing if it cannot be followed, but one that is too
long says nothing of what is there. -/
def pathExists (system : FileSystem) (path : Path) : Except Failure Bool :=
  let written := path.toString
  match system.find written with
  | .ok place =>
    match system.entry place with
    | .missing => .ok false
    | _ => .ok true
  | .error .tooLong => .error (.file .tooLong written)
  | .error _ => .ok false

def readBytes (system : FileSystem) (written : String) : Except FileFault ByteArray := do
  match system.entry (← system.find written) with
  | .missing => throw .missing
  | .directory => throw .directory
  | .file bytes => pure bytes

/-- The text of a file, with its line ends unified. -/
def readText (system : FileSystem) (written : String) : Except Failure (List Char) :=
  match system.readBytes written with
  | .error fault => .error (.file fault written)
  | .ok bytes =>
    match Utf8.decode bytes with
    | .error fault => .error (.undecodable fault)
    | .ok text => .ok (unifyLineEnds text.toList)

/-- The files when a text is written to one of them. -/
def writeText (system : FileSystem) (written : String) (text : List Char) :
    Except Failure FileSystem :=
  match system.findTarget written with
  | .error fault => .error (.file fault written)
  | .ok place => .ok (system.set place (Utf8.encode (String.ofList text)))

end FileSystem

end AccessibleMarkup.Files
