import AccessibleMarkup.Enhancement
import AccessibleMarkup.Files
import AccessibleMarkup.Validation

/-! Enhancing and validating files. -/
namespace AccessibleMarkup.Files

open AccessibleMarkup.Text

/-- The ending of the file that an enhanced text is written to when no other is asked for. -/
def enhancedSuffix : List Char := ".aria.html".toList

def outputPath (input : Path) (output : Option String) : Except Failure Path :=
  match output with
  | some written => .ok (Path.ofString written)
  | none =>
    match input.withSuffix? enhancedSuffix with
    | some path => .ok path
    | none => .error (.namelessPath input.toString)

/-- Writes the enhanced text of a file to another file, or over itself. The settings are checked
when the text is read. -/
def enhanceFile (settings : Settings) (system : FileSystem) (input : String)
    (output : Option String) : Except Failure (Path × FileSystem) := do
  let input := Path.ofString input
  let output ← outputPath input output
  let text ← system.readText input.toString
  let config ← settings.check
  let enhanced ← enhance config text
  let written ← system.writeText output.toString enhanced
  pure (output, written)

def validateFile (settings : Settings) (system : FileSystem) (timestamp input : String) :
    Except Failure Report := do
  let config ← settings.check
  let path := (Path.ofString input).toString
  let text ← system.readText path
  validate config path timestamp [] text

end AccessibleMarkup.Files
