import AccessibleMarkup.CommandLine.Arguments
import AccessibleMarkup.Files.Enhance

/-!
Running a command. A run reads files and standard input and gives what it writes: standard output,
lines of a log, and the files afterwards. A failure that is a verdict on the markup ends the run
with a line in the log; any other failure leaves the program as it is.
-/
namespace AccessibleMarkup.CommandLine

open AccessibleMarkup.Files
open AccessibleMarkup.Text

/-- What a run can see. -/
structure World where
  files : FileSystem
  input : ByteArray
  timestamp : String

/-- What a run leaves behind. The ending is an exit code or a failure that left the program. -/
structure Result where
  ending : Except Failure Nat
  output : List Char
  log : List String
  files : FileSystem

def versionLine : String := programName ++ " 0.1.0\n"

def usageLine : String :=
  "usage: " ++ programName ++ " [-h] [-v] [--version] command ...\n"

/-- The debug lines of some work, if they are wanted. -/
def debugLines (verbose : Bool) (work : Logged α) : List String :=
  if verbose then work.lines.map ("DEBUG: " ++ ·) else []

/-- A run that ends with a failure behind some lines of the log. -/
def endWith (world : World) (log : List String) (failure : Failure) : Result :=
  if failure.isAccessibility then
    ⟨.ok 1, [], log ++ ["ERROR: " ++ failure.message], world.files⟩
  else ⟨.error failure, [], log, world.files⟩

/-- The text of standard input, with its line ends unified. -/
def readStandardInput (world : World) : Except Failure (List Char) :=
  match Utf8.decode world.input with
  | .error fault => .error (.undecodable fault)
  | .ok text => .ok (unifyLineEnds text.toList)

/-- Enhances a text that was read and writes it to a file or to standard output. -/
def runEnhance (world : World) (verbose : Bool) (output : Option String)
    (text : List Char) : Result :=
  let work := enhanceLogged Config.standard text
  let log := debugLines verbose work
  match work.outcome with
  | .error failure => endWith world log failure
  | .ok enhanced =>
    match output.filter (!·.isEmpty) with
    | none => ⟨.ok 0, enhanced, log, world.files⟩
    | some path =>
      match world.files.writeText path enhanced with
      | .error failure => endWith world log failure
      | .ok files => ⟨.ok 0, [], log ++ ["INFO: Enhanced HTML written to: " ++ path], files⟩

/-- What stands for the value of an option that was left without one. -/
def absentValue : Json.Value := .array []

def auditConfig (maxHeadingJump : Option Int) : Except Failure Config :=
  match maxHeadingJump with
  | some jump => Settings.check { maxHeadingJump := jump }
  | none => .error (.incomparable "<" absentValue.kindName (Json.Value.number 1).kindName)

def validationConfig (level : Option Level) : Except Failure Config :=
  match level with
  | some level => Settings.check { level := .known level }
  | none => .error (.unknownLevel absentValue)

def runAudit (world : World) (verbose : Bool) (maxHeadingJump : Option Int)
    (text : List Char) : Result :=
  match auditConfig maxHeadingJump with
  | .error failure => endWith world [] failure
  | .ok config =>
    let work := auditLogged config text
    let log := debugLines verbose work
    match work.outcome with
    | .error failure => endWith world log failure
    | .ok () => ⟨.ok 0, [], log ++ ["INFO: WCAG audit passed"], world.files⟩

def runValidate (world : World) (verbose : Bool) (input : String) (format : Format)
    (level : Option Level) (text : List Char) : Result :=
  match validationConfig level with
  | .error failure => endWith world [] failure
  | .ok config =>
    let work := validateLogged config input world.timestamp [] text
    let log := debugLines verbose work
    match work.outcome with
    | .error failure => endWith world log failure
    | .ok report =>
      let printed := match format with
        | .json => report.toJson
        | .text => report.toText
      ⟨.ok (if report.passed then 0 else 1), printed.toList ++ ['\n'], log, world.files⟩

def runOn (world : World) (verbose : Bool) (command : Command) (text : List Char) : Result :=
  match command with
  | .enhance _ output => runEnhance world verbose output text
  | .audit _ maxHeadingJump => runAudit world verbose maxHeadingJump text
  | .validate input format level => runValidate world verbose input format level text

def standardInput : String := "-"

/-- The text that a command reads, if there is a file at all. -/
def readInput (world : World) (input : String) : Except Failure (Option (List Char)) := do
  if input = standardInput then return some (← readStandardInput world)
  if ← world.files.pathExists (Path.ofString input) then
    return some (← world.files.readText input)
  return none

def runCommand (world : World) (verbose : Bool) (command : Command) : Result :=
  match readInput world command.input with
  | .error failure => ⟨.error failure, [], [], world.files⟩
  | .ok none => ⟨.ok 1, [], ["ERROR: Input file not found: " ++ command.input], world.files⟩
  | .ok (some text) => runOn world verbose command text

def run (world : World) (arguments : List String) : Result :=
  match readArguments arguments with
  | .error error => ⟨.ok 2, [], [error.message], world.files⟩
  | .ok .version => ⟨.ok 0, versionLine.toList, [], world.files⟩
  | .ok .help => ⟨.ok 0, usageLine.toList, [], world.files⟩
  | .ok (.run verbose command) => runCommand world verbose command

end AccessibleMarkup.CommandLine
