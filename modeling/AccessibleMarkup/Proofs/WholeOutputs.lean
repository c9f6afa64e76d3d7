import AccessibleMarkup.Proofs.DerivedPaths
import AccessibleMarkup.Proofs.FileSteps

/-! What an enhancement leaves behind: the whole enhanced text in the one file or on the one stream
that was asked for, or nothing. Everything that can fail comes before the file is opened, except for
finding its place, and opening it fails without effect. -/
namespace AccessibleMarkup.Files

open AccessibleMarkup.CommandLine
open AccessibleMarkup.Text

/-- The files after a text was written: it is whole at the place where the path leads, and all else
is as it was. -/
def Writes (before after : FileSystem) (written : String) (text : List Char) : Prop :=
  ∃ place, before.findTarget written = .ok place ∧
    after.bytes? place = some (Utf8.encode (String.ofList text)) ∧
    (∀ other, other ≠ place → after.bytes? other = before.bytes? other) ∧
    after.directories = before.directories

/-- A text that is written is whole where its path leads, and all else is as it was. -/
theorem writes_of_writeText {before after : FileSystem} {written : String} {text : List Char}
    (hWrite : before.writeText written text = .ok after) : Writes before after written text := by
  rw [FileSystem.writeText] at hWrite
  cases hPlace : before.findTarget written with
  | error fault =>
      rw [hPlace] at hWrite
      cases hWrite
  | ok place =>
      rw [hPlace] at hWrite
      obtain rfl := Except.ok.inj hWrite
      exact ⟨place, hPlace, bytes?_set, fun _ hOther => bytes?_set_of_ne hOther, rfl⟩

/-- Where the enhancement of a file goes through, the file that is asked for gets the enhanced text
of the other one. -/
theorem writes_of_enhanceFile {settings : Settings} {system files : FileSystem} {input : String}
    {output : Option String} {target : Path}
    (hDone : enhanceFile settings system input output = .ok (target, files)) :
    ∃ config text enhanced, settings.check = .ok config ∧
      system.readText (Path.ofString input).toString = .ok text ∧
      enhance config text = .ok enhanced ∧
      outputPath (Path.ofString input) output = .ok target ∧
      Writes system files target.toString enhanced := by
  simp only [enhanceFile, bind_eq_ok_iff] at hDone
  obtain ⟨path, hPath, text, hText, config, hConfig, enhanced, hEnhance, after, hWrite, hLast⟩ :=
    hDone
  cases hLast
  exact ⟨config, text, enhanced, hConfig, hText, hEnhance, hPath, writes_of_writeText hWrite⟩

/-- The result of a command that changes and prints nothing. -/
def LeavesNothing (world : World) (result : Result) : Prop :=
  result.output = [] ∧ result.files = world.files

/-- The result of a command that prints the whole text, or writes it to the file that is asked
for. -/
def LeavesWhole (world : World) (output : Option String) (text : List Char) (result : Result) :
    Prop :=
  match output.filter (!·.isEmpty) with
  | none => result.output = text ∧ result.files = world.files
  | some written => result.output = [] ∧ Writes world.files result.files written text

/-- A command that ends with a failure leaves nothing behind. -/
theorem leavesNothing_endWith (world : World) (log : List String) (failure : Failure) :
    (endWith world log failure).ending ≠ .ok 0 ∧
      LeavesNothing world (endWith world log failure) := by
  rw [endWith]
  split
  · exact ⟨by simp, rfl, rfl⟩
  · exact ⟨by simp, rfl, rfl⟩

/-- What the enhancement of a text that was read leaves behind. -/
theorem runEnhance_cases (world : World) (verbose : Bool) (output : Option String)
    (text : List Char) :
    ((runEnhance world verbose output text).ending ≠ .ok 0 ∧
        LeavesNothing world (runEnhance world verbose output text)) ∨
      ((runEnhance world verbose output text).ending = .ok 0 ∧
        ∃ enhanced, enhance .standard text = .ok enhanced ∧
          LeavesWhole world output enhanced (runEnhance world verbose output text)) := by
  have hWork : (enhanceLogged Config.standard text).outcome = enhance .standard text := rfl
  simp only [runEnhance, hWork, LeavesWhole]
  generalize output.filter (!·.isEmpty) = target
  rcases hEnhance : enhance .standard text with failure | enhanced
  · exact .inl (leavesNothing_endWith ..)
  rcases target with - | written
  · exact .inr ⟨rfl, enhanced, rfl, rfl, rfl⟩
  simp only
  rcases hWrite : world.files.writeText written enhanced with failure | files
  · exact .inl (leavesNothing_endWith ..)
  · exact .inr ⟨rfl, enhanced, rfl, rfl, writes_of_writeText hWrite⟩

/-- What the command leaves behind that enhances a file or standard input. -/
theorem runCommand_cases (world : World) (verbose : Bool) (input : String)
    (output : Option String) :
    ((runCommand world verbose (.enhance input output)).ending ≠ .ok 0 ∧
        LeavesNothing world (runCommand world verbose (.enhance input output))) ∨
      ((runCommand world verbose (.enhance input output)).ending = .ok 0 ∧
        ∃ text enhanced, readInput world input = .ok (some text) ∧
          enhance .standard text = .ok enhanced ∧
          LeavesWhole world output enhanced
            (runCommand world verbose (.enhance input output))) := by
  have hRead : (Command.enhance input output).input = input := rfl
  rw [runCommand, hRead]
  rcases hText : readInput world input with failure | (- | text)
  · exact .inl ⟨by simp, rfl, rfl⟩
  · exact .inl ⟨by simp, rfl, rfl⟩
  · rcases runEnhance_cases world verbose output text with hNothing | ⟨hEnding, enhanced, hWhole⟩
    · exact .inl hNothing
    · exact .inr ⟨hEnding, text, enhanced, rfl, hWhole⟩

/-- No enhancement leaves a part of its output behind. Step by step, where opening a file empties it
and what is done stays done, a failure leaves everything as it was; otherwise the file that is asked
for holds the whole enhanced text, and nothing else has changed. The same holds of the command. It
prints the text if no file is asked for, and prints nothing unless it goes through. Where no output
is asked for, the path of the output is not the path of the input, and the file that was read keeps
its bytes. -/
theorem output_is_whole_or_missing :
    (∀ (settings : Settings) (input : String) (output : Option String) (machine : Machine),
      match enhanceFile settings machine.files input output with
      | .error failure =>
        Steps.enhanceFile settings input output machine = .error failure machine
      | .ok (target, files) =>
        Steps.enhanceFile settings input output machine =
            .ok target { machine with files := files } ∧
          ∃ config text enhanced, settings.check = .ok config ∧
            machine.files.readText (Path.ofString input).toString = .ok text ∧
            enhance config text = .ok enhanced ∧
            outputPath (Path.ofString input) output = .ok target ∧
            Writes machine.files files target.toString enhanced) ∧
    (∀ (world : World) (arguments : List String) (verbose : Bool) (input : String)
      (output : Option String),
      readArguments arguments = .ok (.run verbose (.enhance input output)) →
        Steps.enhanceCommand world input output ⟨world.files, []⟩ =
            Steps.ending (run world arguments) ∧
          ((run world arguments).ending ≠ .ok 0 → LeavesNothing world (run world arguments)) ∧
          ((run world arguments).ending = .ok 0 →
            ∃ text enhanced, readInput world input = .ok (some text) ∧
              enhance .standard text = .ok enhanced ∧
              LeavesWhole world output enhanced (run world arguments))) ∧
    (∀ (world : World) (arguments : List String) (error : UsageError),
      readArguments arguments = .error error →
        (run world arguments).ending ≠ .ok 0 ∧ LeavesNothing world (run world arguments)) ∧
    (∀ (input : String) (target : Path), outputPath (Path.ofString input) none = .ok target →
      target ≠ Path.ofString input ∧
        ∀ (settings : Settings) (system files : FileSystem) (source : Place),
          enhanceFile settings system input none = .ok (target, files) →
            system.find (Path.ofString input).toString = .ok source →
              files.bytes? source = system.bytes? source) := by
  refine ⟨?_, ?_, ?_, ?_⟩
  · intro settings input output machine
    have hSteps := Steps.run_enhanceFile settings input output machine
    cases hDone : enhanceFile settings machine.files input output with
    | error failure => simpa [hDone] using hSteps
    | ok done =>
        rw [hDone] at hSteps
        exact ⟨hSteps, writes_of_enhanceFile hDone⟩
  · intro world arguments verbose input output hArguments
    have hRun : run world arguments = runCommand world verbose (.enhance input output) := by
      rw [run, hArguments]
    rw [hRun]
    refine ⟨Steps.run_enhanceCommand world verbose input output, ?_⟩
    rcases runCommand_cases world verbose input output with ⟨hEnding, hNothing⟩ | ⟨hEnding, hWhole⟩
    · exact ⟨fun _ => hNothing, fun hGood => absurd hGood hEnding⟩
    · exact ⟨fun hBad => absurd hEnding hBad, fun _ => hWhole⟩
  · intro world arguments error hArguments
    rw [run, hArguments]
    exact ⟨by simp, rfl, rfl⟩
  · intro input target hTarget
    have hSuffix := withSuffix?_of_outputPath hTarget
    refine ⟨Path.ne_of_withSuffix? hSuffix, ?_⟩
    intro settings system files source hDone hSource
    obtain ⟨-, -, -, -, -, -, -, place, hPlace, -, hOthers, -⟩ := writes_of_enhanceFile hDone
    exact hOthers source
      (place_ne_of_withSuffix? isName_of_mem_ofString hSuffix hSource hPlace).symm

/-- The page with a button is read, and the whole of its enhanced text is in the other file. -/
theorem button_page_is_whole :
    ∃ target files config text enhanced,
      Steps.enhanceFile {} "in.html" (some "out.html") ⟨pageSystem "<button></button>", []⟩ =
          .ok target ⟨files, []⟩ ∧
        enhance config text = .ok enhanced ∧
        Writes (pageSystem "<button></button>") files target.toString enhanced := by
  have hText : unifyLineEnds "<button></button>".toList = "<button></button>".toList := by
    decide +kernel
  have hEnhance : enhance .standard "<button></button>".toList =
      .ok "<button aria-label=\"button\"></button>".toList :=
    eq_ok_of_toOption (by decide +kernel)
  have hFile := enhanceFile_eq Settings.check_default (readBytes_pageSystem "<button></button>")
    (rfl : outputPath (Path.ofString "in.html") (some "out.html") = .ok (Path.ofString "out.html"))
    (findTarget_pageSystem "<button></button>")
  rw [hText, hEnhance] at hFile
  have hWhole := output_is_whole_or_missing.1 {} "in.html" (some "out.html")
    ⟨pageSystem "<button></button>", []⟩
  rw [hFile] at hWhole
  obtain ⟨hSteps, config, text, enhanced, -, -, hDone, -, hWrites⟩ := hWhole
  exact ⟨_, _, config, text, enhanced, hSteps, hDone, hWrites⟩

end AccessibleMarkup.Files
