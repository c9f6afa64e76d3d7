import AccessibleMarkup.CommandLine.Run
import AccessibleMarkup.Proofs.FileTexts

/-! Enhancing files step by step. A step looks something up, opens a file for writing, which empties
it, writes to an open file or prints; what was done before a failure stays done. Run in this way,
the enhancement of a file and the command for it come to what `enhanceFile` and `run` say they do,
so a file is opened only when nothing can fail any more. -/
namespace AccessibleMarkup.Files

open AccessibleMarkup.CommandLine
open AccessibleMarkup.Text

/-- What steps act on: the files, and what was printed so far. -/
structure Machine where
  files : FileSystem
  printed : List Char

/-- Steps, one after the other. A failure leaves the machine as the steps before it left it. -/
abbrev Steps := EStateM Failure Machine

namespace Steps

def look (work : FileSystem → Except Failure α) : Steps α := fun machine =>
  match work machine.files with
  | .error failure => .error failure machine
  | .ok value => .ok value machine

/-- Opens a file for writing: it is there and empty from then on. -/
def openToWrite (written : String) : Steps Place := fun machine =>
  match machine.files.findTarget written with
  | .error fault => .error (.file fault written) machine
  | .ok place => .ok place { machine with files := machine.files.set place .empty }

/-- Writes a text behind what is in an open file. -/
def write (place : Place) (text : List Char) : Steps Unit := fun machine =>
  let before := (machine.files.bytes? place).getD .empty
  .ok () { machine with
    files := machine.files.set place (before ++ Utf8.encode (String.ofList text)) }

def print (text : List Char) : Steps Unit := fun machine =>
  .ok () { machine with printed := machine.printed ++ text }

/-- Ends with a code for a failure that is a verdict on the markup. -/
def orVerdict (steps : Steps Nat) : Steps Nat := fun machine =>
  match steps machine with
  | .ok code machine => .ok code machine
  | .error failure machine =>
    if failure.isAccessibility then .ok 1 machine else .error failure machine

def enhanceFile (settings : Settings) (input : String) (output : Option String) : Steps Path := do
  let input := Path.ofString input
  let output ← look fun _ => outputPath input output
  let text ← look fun files => files.readText input.toString
  let config ← look fun _ => settings.check
  let enhanced ← look fun _ => enhance config text
  let place ← openToWrite output.toString
  write place enhanced
  pure output

/-- The enhancement of a text and what becomes of it, step by step. -/
def enhanceText (output : Option String) (text : List Char) : Steps Nat := do
  let enhanced ← look fun _ => enhance .standard text
  match output.filter (!·.isEmpty) with
  | none => print enhanced
  | some path =>
    let place ← openToWrite path
    write place enhanced
  pure 0

/-- The command that enhances a file or standard input, step by step. -/
def enhanceCommand (world : World) (input : String) (output : Option String) : Steps Nat := do
  let text? ← look fun files => readInput { world with files := files } input
  match text? with
  | none => pure 1
  | some text => orVerdict (enhanceText output text)

end Steps

/-- Emptying a file and writing to it is writing to it. -/
theorem FileSystem.set_set (system : FileSystem) (place : Place) (bytes other : ByteArray) :
    (system.set place bytes).set place other = system.set place other := by
  simp [FileSystem.set, List.filter_filter]

namespace Steps

/-- Steps go on from the machine that the steps before left, and not at all behind a failure. -/
theorem run_bind {α β : Type} (steps : Steps α) (next : α → Steps β) (machine : Machine) :
    (steps >>= next) machine =
      match steps machine with
      | .ok value machine => next value machine
      | .error failure machine => .error failure machine := by
  show EStateM.bind steps next machine = _
  rw [EStateM.bind]
  cases steps machine <;> rfl

theorem run_pure {α : Type} (value : α) (machine : Machine) :
    (pure value : Steps α) machine = .ok value machine :=
  rfl

/-- Looking something up changes nothing. -/
theorem run_look_bind {α β : Type} (work : FileSystem → Except Failure α) (next : α → Steps β)
    (machine : Machine) :
    (look work >>= next) machine =
      match work machine.files with
      | .error failure => .error failure machine
      | .ok value => next value machine := by
  rw [run_bind, look]
  cases work machine.files <;> rfl

/-- A file is opened and written to as a whole, or left as it is. -/
theorem run_writeText {α : Type} (written : String) (text : List Char) (value : α)
    (machine : Machine) :
    (do let place ← openToWrite written
        write place text
        pure value : Steps α) machine =
      match machine.files.writeText written text with
      | .error failure => .error failure machine
      | .ok files => .ok value { machine with files := files } := by
  rw [run_bind, openToWrite, FileSystem.writeText]
  cases machine.files.findTarget written with
  | error fault => rfl
  | ok place => simp [run_bind, run_pure, write, FileSystem.set_set]

/-- Step by step, enhancing a file comes to what it is said to come to, and a failure leaves the
machine as it was. -/
theorem run_enhanceFile (settings : Settings) (input : String) (output : Option String)
    (machine : Machine) :
    enhanceFile settings input output machine =
      match Files.enhanceFile settings machine.files input output with
      | .error failure => .error failure machine
      | .ok done => .ok done.1 { machine with files := done.2 } := by
  simp only [enhanceFile, Files.enhanceFile, run_look_bind, run_writeText]
  rcases outputPath (Path.ofString input) output with failure | target
  · rfl
  rcases machine.files.readText (Path.ofString input).toString with failure | text
  · rfl
  rcases settings.check with failure | config
  · rfl
  simp only [ok_bind]
  rcases enhance config text with failure | enhanced
  · rfl
  simp only [ok_bind]
  rcases machine.files.writeText target.toString enhanced with failure | files <;> rfl

/-- What a run of steps comes to, as the result of a command. -/
def ending (result : Result) : EStateM.Result Failure Machine Nat :=
  match result.ending with
  | .error failure => .error failure ⟨result.files, result.output⟩
  | .ok code => .ok code ⟨result.files, result.output⟩

/-- A failure ends a command in the same way. -/
theorem ending_endWith (world : World) (log : List String) (failure : Failure) :
    ending (endWith world log failure) =
      if failure.isAccessibility then .ok 1 ⟨world.files, []⟩
      else .error failure ⟨world.files, []⟩ := by
  rw [endWith]
  split <;> rfl

/-- The command taken step by step comes to the result of the command as a whole. -/
theorem run_enhanceText (world : World) (verbose : Bool) (output : Option String)
    (text : List Char) :
    orVerdict (enhanceText output text) ⟨world.files, []⟩ =
      ending (runEnhance world verbose output text) := by
  have hWork : (enhanceLogged Config.standard text).outcome = enhance .standard text := rfl
  simp only [orVerdict, enhanceText, run_look_bind, runEnhance, hWork]
  rcases enhance .standard text with failure | enhanced
  · exact (ending_endWith ..).symm
  generalize output.filter (!·.isEmpty) = target
  rcases target with - | path
  · rfl
  simp only [run_writeText]
  rcases world.files.writeText path enhanced with failure | files
  · exact (ending_endWith ..).symm
  · rfl

/-- Step by step, the command that enhances a text comes to what it is said to come to. -/
theorem run_enhanceCommand (world : World) (verbose : Bool) (input : String)
    (output : Option String) :
    enhanceCommand world input output ⟨world.files, []⟩ =
      ending (runCommand world verbose (.enhance input output)) := by
  have hRead : (Command.enhance input output).input = input := rfl
  rw [enhanceCommand, run_look_bind, runCommand, hRead]
  rcases readInput world input with failure | (- | text)
  · rfl
  · rfl
  · exact run_enhanceText world verbose output text

end Steps

end AccessibleMarkup.Files
