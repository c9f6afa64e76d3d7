import AccessibleMarkup.CommandLine.Run
import AccessibleMarkup.Proofs.KeptLabels
import AccessibleMarkup.Proofs.NamelessInputs

/-! How enhancing a text fails. It fails with a verdict of this library, or because the text is no
markup, or because the rule for inputs has found one without a name. The last is told by the text
before any label: it happens exactly where an input in it begins with an I that is no ASCII letter.
A run of the program ends with an exit code exactly where the enhancement keeps to its verdicts. -/
namespace AccessibleMarkup

open AccessibleMarkup.CommandLine
open AccessibleMarkup.Markup
open AccessibleMarkup.Text

/-- Work that fails with nothing but verdicts of this library. -/
def FailsWithVerdict {α : Type} (work : Except Failure α) : Prop :=
  ∀ failure, work = .error failure → failure.isAccessibility = true

def firstNameless? (text : List Char) : Option PlacedTag :=
  (inputTags text).find? fun placed => beginsForeign placed.source

/-- The search finds an input without a name where there is one. -/
theorem firstNameless?_isSome {text : List Char} :
    (firstNameless? text).isSome = true ↔ NamelessInput text :=
  List.find?_isSome

namespace Rule

/-- Labels for tags fail at the first one without a name, if it is among those that are to be
labelled. -/
theorem mapM_labelEdit (rule : Rule) {nameless lacks : PlacedTag → Bool} {found : List PlacedTag}
    (hNames : ∀ placed ∈ found, tagStart placed.source = [] ↔ nameless placed = true)
    (hLacks : ∀ placed ∈ found, nameless placed = true → lacks placed = true) :
    (found.filter lacks).mapM (labelEdit rule) =
      match found.find? nameless with
      | some placed => .error (.notAnOpenTag placed.source)
      | none => .ok ((found.filter lacks).map rule.labelledEdit) := by
  induction found with
  | nil => rfl
  | cons placed rest ih =>
      have hRest := ih (fun other hMem => hNames other (List.mem_cons_of_mem _ hMem))
        fun other hMem => hLacks other (List.mem_cons_of_mem _ hMem)
      have hName := hNames placed (List.mem_cons_self ..)
      by_cases hNameless : nameless placed = true
      · have hError : labelEdit rule placed = .error (.notAnOpenTag placed.source) := by
          simp [labelEdit, insertInto, hName.2 hNameless, bind, Except.bind]
        rw [List.find?_cons_of_pos hNameless,
          List.filter_cons_of_pos (hLacks placed (List.mem_cons_self ..) hNameless),
          List.mapM_cons, hError]
        rfl
      · rw [List.find?_cons_of_neg hNameless]
        by_cases hHere : lacks placed = true
        · have hEdit : labelEdit rule placed = .ok (rule.labelledEdit placed) :=
            labelEdit_eq_ok_iff.2 ⟨fun hStart => hNameless (hName.1 hStart), rfl⟩
          rw [List.filter_cons_of_pos hHere, List.mapM_cons, hEdit, ok_bind, hRest]
          split <;> rfl
        · rw [List.filter_cons_of_neg hHere, hRest]

/-- The rule for inputs fails at the first input that has no name, and otherwise labels those that
lack its attribute. An input without a name has no attributes, so none of them is passed over. -/
theorem inputEdits_eq (rule : Rule) (text : List Char) :
    inputEdits rule text =
      match firstNameless? text with
      | some placed => .error (.notAnOpenTag placed.source)
      | none => .ok ((rule.unlabelledInputTags text).map rule.labelledEdit) := by
  refine rule.mapM_labelEdit (fun placed hMem => tagStart_eq_nil_of_mem hMem)
    fun placed hMem hNameless => ?_
  obtain ⟨-, rest, -, -, hTag⟩ := exists_of_mem_inputTags hMem
  obtain ⟨body, behind, -, hSource, -⟩ := inputTagAfter?_eq_some hTag
  rw [hasAttribute_eq_false hSource ((tagStart_eq_nil_of_mem hMem).2 hNameless)]
  rfl

/-- The rule for inputs goes through, or it fails at the first input without a name. -/
theorem outcome_apply_inputs (text : List Char) :
    match firstNameless? text with
    | some placed => (inputs.apply text).outcome = .error (.notAnOpenTag placed.source)
    | none => ∃ labelled, (inputs.apply text).outcome = .ok labelled := by
  have hInputs : inputs.edits text = inputEdits inputs text := rfl
  have hEdits := hInputs.trans (inputs.inputEdits_eq text)
  split
  · rename_i hFirst
    rw [hFirst] at hEdits
    exact outcome_apply_of_error hEdits
  · rename_i hFirst
    rw [hFirst] at hEdits
    obtain ⟨hFit, hPuts⟩ := inputEdits_fit (by decide) hEdits
    exact ⟨_, outcome_apply_of_edits hEdits hFit hPuts⟩

/-- A rule that looks for elements fails only where the text is no markup. -/
theorem outcome_apply_elements {rule : Rule} (hFinder : rule.finder = .elements)
    (text : List Char) :
    (∃ reason, (rule.apply text).outcome = .error (.rejected reason)) ∨
      ∃ labelled, (rule.apply text).outcome = .ok labelled := by
  cases hRead : Document.read text with
  | ok document => exact .inr ⟨_, apply_of_read hFinder hRead⟩
  | error reason =>
      refine .inl ⟨reason, outcome_apply_of_error ?_⟩
      simp only [edits, hFinder, elementEdits, Aria.readDocument, hRead]
      rfl

end Rule

/-- Rules that look for elements fail on nothing but text that is no markup. -/
theorem outcome_addLabels_elements {rules : List Rule}
    (hElements : ∀ rule ∈ rules, rule.finder = .elements) (text : List Char) :
    (∃ reason, (addLabels rules text).outcome = .error (.rejected reason)) ∨
      ∃ labelled, (addLabels rules text).outcome = .ok labelled := by
  induction rules generalizing text with
  | nil => exact .inr ⟨text, rfl⟩
  | cons rule rest ih =>
      simp only [addLabels, List.foldlM_cons, Logged.outcome_bind] at ih ⊢
      rcases Rule.outcome_apply_elements (hElements rule (List.mem_cons_self ..)) text with
        ⟨reason, hApply⟩ | ⟨middle, hApply⟩
      · exact .inl ⟨reason, by rw [hApply]; rfl⟩
      · rw [hApply]
        exact ih (fun other hMem => hElements other (List.mem_cons_of_mem _ hMem)) middle

namespace Config

def elementRules (config : Config) : List Rule :=
  config.rules.filter fun rule => rule.finder = .elements

/-- The rule for inputs works on the text, if it is enabled and the text not too long, and finds an
input without a name. -/
structure MeetsNameless (config : Config) (text : List Char) : Prop where
  size : Utf8.byteLength text ≤ maxSize
  enabled : config.labelInputs = true
  nameless : NamelessInput text

variable {config : Config} {text : List Char}

/-- The rule for inputs comes last, if it is enabled. -/
theorem rules_eq (config : Config) :
    config.rules = config.elementRules ++ if config.labelInputs then [Rule.inputs] else [] := by
  obtain ⟨_, _, buttons, navigation, forms, inputs, _⟩ := config
  cases buttons <;> cases navigation <;> cases forms <;> cases inputs <;> rfl

theorem mem_elementRules : ∀ rule ∈ config.elementRules,
    rule ∈ Rule.all ∧ rule.finder = .elements := by
  intro rule hMem
  obtain ⟨hRule, hFinder⟩ := List.mem_filter.1 hMem
  exact ⟨config.mem_all_of_mem_rules rule hRule, of_decide_eq_true hFinder⟩

/-- The rule for inputs works on what the other rules leave. -/
theorem outcome_addLabels_inputs (hEnabled : config.labelInputs = true) :
    (addLabels config.rules text).outcome =
      (addLabels config.elementRules text).outcome >>= fun labelled =>
        (Rule.inputs.apply labelled).outcome := by
  rw [rules_eq, if_pos hEnabled, outcome_addLabels_concat]

/-- The labels of all enabled rules fail where the text is no markup for one of them, and where the
rule for inputs meets one without a name. Where they do not, the text had none. -/
theorem outcome_addLabels (config : Config) (text : List Char) :
    (∃ reason, (addLabels config.rules text).outcome = .error (.rejected reason)) ∨
      (∃ labelled placed, (addLabels config.elementRules text).outcome = .ok labelled ∧
        firstNameless? labelled = some placed ∧ config.labelInputs = true ∧ NamelessInput text ∧
        (addLabels config.rules text).outcome = .error (.notAnOpenTag placed.source)) ∨
      (∃ labelled, (addLabels config.rules text).outcome = .ok labelled) ∧
        ¬(config.labelInputs = true ∧ NamelessInput text) := by
  have hElements : ∀ rule ∈ config.elementRules, rule.finder = .elements := fun rule hMem =>
    (mem_elementRules rule hMem).2
  by_cases hEnabled : config.labelInputs = true
  · rw [outcome_addLabels_inputs hEnabled]
    rcases outcome_addLabels_elements hElements text with ⟨reason, hAdd⟩ | ⟨labelled, hAdd⟩
    · exact .inl ⟨reason, by rw [hAdd]; rfl⟩
    · have hNameless := namelessInput_of_addLabels mem_elementRules
        (List.filter_sublist.trans List.filter_sublist) hAdd
      have hInputs := Rule.outcome_apply_inputs labelled
      rw [hAdd, ok_bind]
      split at hInputs
      · rename_i placed hFirst
        have hSome := firstNameless?_isSome.1 (Option.isSome_iff_exists.2 ⟨placed, hFirst⟩)
        exact .inr (.inl ⟨labelled, placed, rfl, hFirst, hEnabled, hNameless.1 hSome, hInputs⟩)
      · rename_i hFirst
        refine .inr (.inr ⟨hInputs, fun hBoth => ?_⟩)
        have hSome := firstNameless?_isSome.2 (hNameless.2 hBoth.2)
        rw [hFirst] at hSome
        cases hSome
  · rw [rules_eq, if_neg hEnabled, List.append_nil]
    rcases outcome_addLabels_elements hElements text with hRejected | hAdd
    · exact .inl hRejected
    · exact .inr (.inr ⟨hAdd, fun hBoth => hEnabled hBoth.1⟩)

end Config

/-- The cleanup fails on nothing but text that is no markup. -/
theorem Aria.outcome_clean (text : List Char) :
    (∃ reason, (clean text).outcome = .error (.rejected reason)) ∨
      ∃ cleaned, (clean text).outcome = .ok cleaned := by
  cases hRead : Document.read text with
  | ok document => exact .inr ⟨_, clean_of_read hRead⟩
  | error reason =>
      refine .inl ⟨reason, ?_⟩
      simp only [clean, readDocument, hRead, Logged.outcome_bind, Logged.outcome_ofOutcome]
      rfl

/-- The gate fails on text that is no markup, or with an attribute that it names. -/
theorem Aria.outcome_gate (text : List Char) :
    (∃ reason, gate text = .error (.rejected reason)) ∨
      (∃ name detail, gate text = .error (.invalidAria name detail)) ∨ gate text = .ok () := by
  simp only [gate, readDocument]
  cases Document.read text with
  | error reason => exact .inl ⟨reason, rfl⟩
  | ok document =>
      rw [failWith_ok, ok_bind]
      split
      · exact .inr (.inr rfl)
      · exact .inr (.inl ⟨_, _, rfl⟩)

section
variable {config : Config} {text : List Char}

/-- A text that is enhanced meets no input without a name, and where none is met there are these
failures: the text is too long, it is no markup in some phase, or the gate refuses what came out. -/
theorem enhance_of_not_meets (hMeets : ¬config.MeetsNameless text) :
    (∃ out, enhance config text = .ok out) ∨
      (∃ reason, enhance config text = .error (.rejected reason)) ∨
      (∃ size limit, enhance config text = .error (.tooLarge size limit)) ∨
      ∃ name detail, enhance config text = .error (.invalidAria name detail) := by
  rcases Nat.lt_or_ge maxSize (Utf8.byteLength text) with hLarge | hSize
  · exact .inr (.inr (.inl ⟨_, _, enhance_of_too_large hLarge⟩))
  · rw [enhance_of_size hSize]
    rcases config.outcome_addLabels text with ⟨reason, hAdd⟩ |
      ⟨_, _, -, -, hEnabled, hNameless, -⟩ | ⟨⟨labelled, hAdd⟩, -⟩
    · exact .inr (.inl ⟨reason, by rw [hAdd]; rfl⟩)
    · exact absurd ⟨hSize, hEnabled, hNameless⟩ hMeets
    · rw [hAdd, ok_bind]
      rcases Aria.outcome_clean labelled with ⟨reason, hClean⟩ | ⟨cleaned, hClean⟩
      · exact .inr (.inl ⟨reason, by rw [hClean]; rfl⟩)
      · rw [hClean, ok_bind]
        rcases Aria.outcome_gate cleaned with ⟨reason, hGate⟩ | ⟨name, detail, hGate⟩ | hGate
        · exact .inr (.inl ⟨reason, by rw [hGate]; rfl⟩)
        · exact .inr (.inr (.inr ⟨name, detail, by rw [hGate]; rfl⟩))
        · exact .inl ⟨cleaned, by rw [hGate]; rfl⟩

/-- The enhancement fails at an input without a name, unless the text was rejected before. -/
theorem enhance_of_meets (hMeets : config.MeetsNameless text) :
    (∃ reason, enhance config text = .error (.rejected reason)) ∨
      ∃ labelled placed, (addLabels config.elementRules text).outcome = .ok labelled ∧
        firstNameless? labelled = some placed ∧
        enhance config text = .error (.notAnOpenTag placed.source) := by
  obtain ⟨hSize, hEnabled, hNameless⟩ := hMeets
  rw [enhance_of_size hSize]
  rcases config.outcome_addLabels text with ⟨reason, hAdd⟩ |
    ⟨labelled, placed, hElements, hFirst, -, -, hAdd⟩ | ⟨-, hNot⟩
  · exact .inl ⟨reason, by rw [hAdd]; rfl⟩
  · exact .inr ⟨labelled, placed, hElements, hFirst, by rw [hAdd]; rfl⟩
  · exact absurd ⟨hEnabled, hNameless⟩ hNot

end

/-- A run on a text ends with an exit code exactly where the enhancement does not fail but with a
verdict. -/
theorem CommandLine.ending_of_enhance {world : World} {arguments : List String} {verbose : Bool}
    {input : String} {output : Option String} {text : List Char}
    (hArguments : readArguments arguments = .ok (.run verbose (.enhance input output)))
    (hInput : readInput world input = .ok (some text))
    (hOutput : ∀ path, output = some path → path.isEmpty = false →
      ∃ place, world.files.findTarget path = .ok place) :
    ((run world arguments).ending = .ok 0 ∨ (run world arguments).ending = .ok 1) ↔
      FailsWithVerdict (enhance .standard text) := by
  have hRun : run world arguments = runEnhance world verbose output text := by
    simp only [run, hArguments, runCommand, Command.input, hInput, runOn]
  have hOutcome : (enhanceLogged .standard text).outcome = enhance .standard text := rfl
  simp only [hRun, runEnhance, hOutcome]
  cases enhance .standard text with
  | error failure =>
      have hVerdict : FailsWithVerdict (.error failure : Except Failure (List Char)) ↔
          failure.isAccessibility = true :=
        ⟨fun hFails => hFails failure rfl, fun hAccessibility other hSame => by
          cases hSame
          exact hAccessibility⟩
      rw [hVerdict]
      by_cases hAccessibility : failure.isAccessibility = true
      · simp [endWith, hAccessibility]
      · simp [endWith, hAccessibility]
  | ok enhanced =>
      have hVerdict : FailsWithVerdict (.ok enhanced : Except Failure (List Char)) := by
        rintro failure ⟨⟩
      refine iff_of_true (.inl ?_) hVerdict
      cases hPath : output.filter (!·.isEmpty) with
      | none => rfl
      | some path =>
          obtain ⟨hSome, hNonempty⟩ := Option.filter_eq_some_iff.1 hPath
          obtain ⟨place, hPlace⟩ := hOutput path hSome (by simpa using hNonempty)
          simp only [Files.FileSystem.writeText, hPlace]

/-- How a text that is markup in every phase is enhanced. It fails with nothing but verdicts of this
library exactly where it meets no input without a name; the verdicts are that it is too long or that
the gate refuses it. Where it meets such an input, it fails at the first one with a failure that is
no verdict. A run of the program ends with an exit code exactly where the enhancement does not fail
but with a verdict. A text that some phase rejects is left out, whatever the rejection is: that a
marked section begins with no name or an unknown one, or that a decimal reference has more digits
than are converted. -/
theorem enhance_failsWithVerdict_iff {config : Config} {text : List Char}
    (hReads : ∀ reason, enhance config text ≠ .error (.rejected reason)) :
    (FailsWithVerdict (enhance config text) ↔ ¬config.MeetsNameless text) ∧
      (¬config.MeetsNameless text → (∃ out, enhance config text = .ok out) ∨
        (∃ size limit, enhance config text = .error (.tooLarge size limit)) ∨
        ∃ name detail, enhance config text = .error (.invalidAria name detail)) ∧
      (config.MeetsNameless text →
        ∃ labelled placed, (addLabels config.elementRules text).outcome = .ok labelled ∧
          firstNameless? labelled = some placed ∧
          enhance config text = .error (.notAnOpenTag placed.source)) ∧
      ∀ world arguments verbose input output,
        readArguments arguments = .ok (.run verbose (.enhance input output)) →
        readInput world input = .ok (some text) →
        (∀ path, output = some path → path.isEmpty = false →
          ∃ place, world.files.findTarget path = .ok place) →
        (((run world arguments).ending = .ok 0 ∨ (run world arguments).ending = .ok 1) ↔
          FailsWithVerdict (enhance .standard text)) := by
  have hNot (hMeets : ¬config.MeetsNameless text) : (∃ out, enhance config text = .ok out) ∨
      (∃ size limit, enhance config text = .error (.tooLarge size limit)) ∨
      ∃ name detail, enhance config text = .error (.invalidAria name detail) := by
    rcases enhance_of_not_meets hMeets with hOut | ⟨reason, hRejected⟩ | hVerdict
    · exact .inl hOut
    · exact absurd hRejected (hReads reason)
    · exact .inr hVerdict
  have hMet (hMeets : config.MeetsNameless text) := (enhance_of_meets hMeets).resolve_left
    fun ⟨reason, hRejected⟩ => hReads reason hRejected
  refine ⟨⟨fun hVerdict hMeets => ?_, fun hMeets failure hFailure => ?_⟩, hNot, hMet,
    fun _ _ _ _ _ hArguments hInput hOutput => ending_of_enhance hArguments hInput hOutput⟩
  · obtain ⟨-, placed, -, -, hFailure⟩ := hMet hMeets
    cases hVerdict _ hFailure
  · rcases hNot hMeets with ⟨out, hOut⟩ | ⟨size, limit, hLarge⟩ | ⟨name, detail, hGate⟩
    · rw [hOut] at hFailure
      cases hFailure
    · rw [hLarge] at hFailure
      cases hFailure
      rfl
    · rw [hGate] at hFailure
      cases hFailure
      rfl

/-- An input with a name is not in the way of an exit code. -/
theorem enhance_failsWithVerdict_input :
    ¬Config.standard.MeetsNameless "<input >".toList ∧
      ((run ⟨⟨[], []⟩, "<input >".toUTF8, ""⟩ ["enhance", "-"]).ending = .ok 0 ∨
        (run ⟨⟨[], []⟩, "<input >".toUTF8, ""⟩ ["enhance", "-"]).ending = .ok 1) := by
  have hOut : enhance .standard "<input >".toList = .ok "<input aria-label=\"input\" >".toList :=
    eq_ok_of_toOption (by decide +kernel)
  have hReads : ∀ reason, enhance .standard "<input >".toList ≠ .error (.rejected reason) := by
    intro reason hRejected
    cases hOut.symm.trans hRejected
  have hVerdict : FailsWithVerdict (enhance .standard "<input >".toList) := by
    rw [hOut]
    rintro failure ⟨⟩
  have hArguments : readArguments ["enhance", "-"] = .ok (.run false (.enhance "-" none)) := rfl
  have hInput : readInput ⟨⟨[], []⟩, "<input >".toUTF8, ""⟩ "-" = .ok (some "<input >".toList) :=
    eq_ok_of_toOption (by decide +kernel)
  obtain ⟨hIff, -, -, hEnding⟩ := enhance_failsWithVerdict_iff hReads
  exact ⟨hIff.1 hVerdict, (hEnding _ _ _ _ _ hArguments hInput (by simp)).2 hVerdict⟩

/-- A text that is markup, with what looks like the tag of an input but begins with a dotless I: the
rule for inputs finds it and then takes it for no tag. -/
theorem enhance_fails_at_dotless_input :
    (∃ document, Document.read "<\u0131nput >".toList = .ok document) ∧
      (addLabels Config.standard.elementRules "<\u0131nput >".toList).outcome =
        .ok "<\u0131nput >".toList ∧
      enhance .standard "<\u0131nput >".toList = .error (.notAnOpenTag "<\u0131nput >".toList) ∧
      ¬FailsWithVerdict (enhance .standard "<\u0131nput >".toList) := by
  have hAdd : (addLabels Config.standard.elementRules "<\u0131nput >".toList).outcome =
      .ok "<\u0131nput >".toList := eq_ok_of_toOption (by decide +kernel)
  have hFirst : firstNameless? "<\u0131nput >".toList = some ⟨0, "<\u0131nput >".toList⟩ := by
    decide +kernel
  have hApply := Rule.outcome_apply_inputs "<\u0131nput >".toList
  rw [hFirst] at hApply
  have hEnhance : enhance .standard "<\u0131nput >".toList =
      .error (.notAnOpenTag "<\u0131nput >".toList) := by
    rw [enhance_of_size (by decide +kernel), Config.outcome_addLabels_inputs rfl, hAdd, ok_bind,
      hApply]
    rfl
  have hRead : Document.read "<\u0131nput >".toList =
      .ok ⟨[.string .text "<\u0131nput >".toList]⟩ := eq_ok_of_toOption (by decide +kernel)
  refine ⟨⟨_, hRead⟩, hAdd, hEnhance, fun hVerdict => ?_⟩
  cases hVerdict _ hEnhance

end AccessibleMarkup
