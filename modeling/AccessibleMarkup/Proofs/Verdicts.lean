import AccessibleMarkup.Proofs.Passes
import AccessibleMarkup.Validation

/-! What an audit and a report say about the same text. Every check lists issues of its own kind
only, and the checks of an audit are the first ones of a report, so the issue that an audit stops at
is the first one in the report. A report on white space alone lists nothing without reading the
text; an audit reads it and finds no element. -/
namespace AccessibleMarkup

open AccessibleMarkup.Markup
open AccessibleMarkup.Text

def IssueKind.structural : List IssueKind :=
  [.missingAltText, .headingStructure, .missingLabels]

section
variable {document : Document} {issue : Issue}

theorem kind_of_mem_imageIssues (hMem : issue ∈ imageIssues document) :
    issue.kind = .missingAltText := by
  obtain ⟨node, -, rfl⟩ := List.mem_map.1 hMem
  rfl

/-- What is found behind the issues that were there before is about headings. -/
theorem kind_of_mem_headingIssuesOnto {maxJump : Int} {found : List Issue} {before : Nat}
    {behind : List (Nat × Node)} (hMem : issue ∈ headingIssuesOnto maxJump found before behind) :
    issue ∈ found ∨ issue.kind = .headingStructure := by
  induction behind generalizing found before with
  | nil => exact .inl (List.mem_reverse.1 hMem)
  | cons heading rest ih =>
      rw [headingIssuesOnto] at hMem
      split at hMem
      · rcases ih hMem with hFound | hKind
        · exact (List.mem_cons.1 hFound).elim (fun hIssue => .inr (hIssue ▸ rfl)) .inl
        · exact .inr hKind
      · exact ih hMem

theorem kind_of_mem_headingIssues {maxJump : Int} (hMem : issue ∈ headingIssues maxJump document) :
    issue.kind = .headingStructure :=
  (kind_of_mem_headingIssuesOnto hMem).resolve_left List.not_mem_nil

theorem kind_of_mem_inputIssues (hMem : issue ∈ inputIssues document) :
    issue.kind = .missingLabels := by
  obtain ⟨node, -, rfl⟩ := List.mem_map.1 hMem
  rfl

theorem kind_of_mem_ariaIssues (hMem : issue ∈ ariaIssues document) :
    issue.kind = .invalidAria := by
  obtain ⟨invalid, -, rfl⟩ := List.mem_map.1 hMem
  rfl

theorem kind_of_mem_languageIssues (hMem : issue ∈ languageIssues document) :
    issue.kind = .languageDeclaration := by
  rcases List.mem_append.1 hMem with hRoot | hCode
  · unfold rootLanguageIssues at hRoot
    split at hRoot
    · simp at hRoot
    · obtain ⟨-, hIssue⟩ := List.mem_ite_nil_left.1 hRoot
      rw [List.mem_singleton.1 hIssue]
  · obtain ⟨node, -, hIssue⟩ := List.mem_filterMap.1 hCode
    split at hIssue
    · simp at hIssue
    · split at hIssue
      · simp at hIssue
      · cases hIssue
        rfl

theorem kind_of_mem_keyboardIssues (hMem : issue ∈ keyboardIssues document) :
    issue.kind = .keyboardNavigation := by
  obtain ⟨node, -, hIssue⟩ := List.mem_flatMap.1 hMem
  simp only [keyboardIssuesOf, List.mem_append, List.mem_ite_nil_right, List.mem_singleton]
    at hIssue
  rcases hIssue with ⟨-, rfl⟩ | ⟨-, rfl⟩ <;> rfl

theorem kind_of_mem_roleIssues (hMem : issue ∈ roleIssues document) :
    issue.kind = .invalidAria := by
  obtain ⟨node, -, hIssue⟩ := List.mem_flatMap.1 hMem
  unfold roleIssuesOf at hIssue
  split at hIssue
  · simp at hIssue
  · simp only [List.mem_append, List.mem_ite_nil_left, List.mem_singleton] at hIssue
    rcases hIssue with ⟨-, rfl⟩ | ⟨-, rfl⟩ <;> rfl

end

/-- What holds of each of the checks holds of all that a configuration asks for. -/
theorem forall_mem_checks {config : Config} {holds : Check → Prop}
    (images : holds ⟨.missingAltText, imageIssues⟩)
    (headings : holds ⟨.headingStructure, headingIssues config.maxHeadingJump⟩)
    (inputs : holds ⟨.missingLabels, inputIssues⟩) (aria : holds ⟨.invalidAria, ariaIssues⟩)
    (language : holds ⟨.languageDeclaration, languageIssues⟩)
    (keyboard : holds ⟨.keyboardNavigation, keyboardIssues⟩)
    (roles : holds ⟨.invalidAria, roleIssues⟩) : ∀ check ∈ checks config, holds check := by
  intro check hMem
  simp only [checks, List.mem_append, List.mem_cons, List.not_mem_nil, or_false,
    List.mem_ite_nil_right] at hMem
  rcases hMem with (rfl | rfl | rfl | rfl | rfl | rfl) | ⟨-, rfl⟩
  · exact images
  · exact headings
  · exact inputs
  · exact aria
  · exact language
  · exact keyboard
  · exact roles

/-- A check lists issues of its own kind only. -/
theorem kind_of_mem_run {config : Config} (document : Document) :
    ∀ check ∈ checks config, ∀ issue ∈ check.run document, issue.kind = check.kind :=
  forall_mem_checks (fun _ => kind_of_mem_imageIssues) (fun _ => kind_of_mem_headingIssues)
    (fun _ => kind_of_mem_inputIssues) (fun _ => kind_of_mem_ariaIssues)
    (fun _ => kind_of_mem_languageIssues) (fun _ => kind_of_mem_keyboardIssues)
    (fun _ => kind_of_mem_roleIssues)

/-- No check finds an issue in a document without elements. -/
theorem run_eq_nil_of_nodes {config : Config} {document : Document}
    (hNodes : document.nodes = []) : ∀ check ∈ checks config, check.run document = [] := by
  have hElements : document.elements = [] := by
    rw [← document.map_element_nodes, hNodes]
    rfl
  apply forall_mem_checks
  · simp [imageIssues, hNodes]
  · simp [headingIssues, headings, headingIssuesOnto, hNodes]
  · simp [inputIssues, hNodes]
  · simp [ariaIssues, Aria.findInvalid, hNodes]
  · simp [languageIssues, rootLanguageIssues, languageCodeIssues, hNodes, hElements]
  · simp [keyboardIssues, hNodes]
  · simp [roleIssues, hNodes]

/-- A document without elements has no issues. -/
theorem findIssues_eq_nil_of_nodes {document : Document} (hNodes : document.nodes = [])
    (config : Config) (disabled : List IssueKind) : findIssues config disabled document = [] :=
  List.flatMap_eq_nil_iff.2 fun check hMem =>
    run_eq_nil_of_nodes hNodes check (List.mem_filter.1 hMem).1

/-- The checks of a report that an audit does not make. -/
def furtherChecks (config : Config) : List Check :=
  (checks config).drop 3

/-- A report with all checks lists what an audit looks for, and then what the further checks
find. -/
theorem findIssues_all (config : Config) (document : Document) :
    findIssues config [] document =
      structuralIssues config document ++
        (furtherChecks config).flatMap fun check => check.run document := by
  simp [findIssues, checks, furtherChecks, structuralIssues]

/-- An audit stops at structural issues only. -/
theorem kind_mem_structural {config : Config} {document : Document} {issue : Issue}
    (hMem : issue ∈ structuralIssues config document) : issue.kind ∈ IssueKind.structural := by
  simp only [structuralIssues, List.mem_append] at hMem
  rcases hMem with (hImage | hHeading) | hInput
  · rw [kind_of_mem_imageIssues hImage]
    decide
  · rw [kind_of_mem_headingIssues hHeading]
    decide
  · rw [kind_of_mem_inputIssues hInput]
    decide

/-- The checks that an audit does not make find no structural issues. -/
theorem kind_not_mem_structural {config : Config} {document : Document} {check : Check}
    {issue : Issue} (hCheck : check ∈ furtherChecks config) (hMem : issue ∈ check.run document) :
    issue.kind ∉ IssueKind.structural := by
  rw [kind_of_mem_run document check (List.mem_of_mem_drop hCheck) issue hMem]
  simp only [furtherChecks, checks, List.cons_append, List.nil_append, List.drop_succ_cons,
    List.drop_zero, List.mem_cons, List.mem_ite_nil_right, List.not_mem_nil, or_false] at hCheck
  rcases hCheck with rfl | rfl | rfl | ⟨-, rfl⟩ <;> decide

/-- The structural issues of a report are those that an audit looks for. -/
theorem structuralIssues_eq_nil_iff {config : Config} {document : Document} :
    structuralIssues config document = [] ↔
      ∀ issue ∈ findIssues config [] document, issue.kind ∉ IssueKind.structural := by
  rw [findIssues_all]
  constructor
  · intro hNone issue hMem
    rw [hNone, List.nil_append] at hMem
    obtain ⟨check, hCheck, hIssue⟩ := List.mem_flatMap.1 hMem
    exact kind_not_mem_structural hCheck hIssue
  · intro hAll
    refine List.eq_nil_iff_forall_not_mem.2 fun issue hMem => ?_
    exact hAll issue (List.mem_append_left _ hMem) (kind_mem_structural hMem)

/-- White space alone opens no element. -/
theorem nodes_eq_nil_of_allBlank {text : List Char} {document : Document}
    (hRead : Document.read text = .ok document) (hBlank : allBlank text = true) :
    document.nodes = [] := by
  obtain ⟨-, hStand, hElements, -⟩ := readable_of_read hRead
  rw [← List.map_eq_nil_iff, document.map_element_nodes, hElements, List.map_eq_nil_iff]
  refine List.eq_nil_iff_forall_not_mem.2 fun opening hMem => ?_
  obtain ⟨behind, hText, -⟩ := hStand opening hMem
  have hOpen : isBlank '<' = true := by
    rw [allBlank, List.all_eq_true] at hBlank
    exact hBlank '<' (by rw [hText]; simp [OpenTag.source])
  exact absurd hOpen (by decide)

/-- A report on a text that can be read lists what the enabled checks find in its document, also
where it is white space and not read. -/
theorem validate_of_read {text : List Char} {document : Document}
    (hRead : Document.read text = .ok document) (config : Config) (filePath timestamp : String)
    (disabled : List IssueKind) :
    ∃ report, validate config filePath timestamp disabled text = .ok report ∧
      report.issues = findIssues config disabled document := by
  by_cases hBlank : allBlank text = true
  · refine ⟨{ filePath := filePath, timestamp := timestamp, level := config.level }, ?_, ?_⟩
    · simp [validate, validateLogged, hBlank]
    · exact (findIssues_eq_nil_of_nodes (nodes_eq_nil_of_allBlank hRead hBlank) _ _).symm
  · refine ⟨reportOn config filePath timestamp disabled document, ?_, rfl⟩
    simp [validate, validateLogged, hBlank, Aria.readDocument, hRead]

/-- An audit fails with the first of the issues that it looks for. -/
theorem audit_of_read {text : List Char} {document : Document}
    (hRead : Document.read text = .ok document) (config : Config) :
    audit config text =
      match structuralIssues config document with
      | [] => .ok ()
      | first :: _ => .error (auditFailure first) := by
  simp only [audit, auditLogged, Aria.readDocument, hRead, failWith_ok, Logged.outcome_bind,
    Logged.outcome_ofOutcome, ok_bind]
  cases structuralIssues config document <;> simp

/-- An audit of a text goes through exactly where a report with all checks lists no issue of the
structural kinds. Where it does not go through, it fails with the first issue of the report: its
message, its guideline and its kind. This includes white space, which the report does not read. -/
theorem audit_agrees_with_report {text : List Char} {document : Document}
    (hRead : Document.read text = .ok document) (config : Config) (filePath timestamp : String) :
    ∃ report, validate config filePath timestamp [] text = .ok report ∧
      (audit config text = .ok () ↔
        ∀ issue ∈ report.issues, issue.kind ≠ .missingAltText ∧ issue.kind ≠ .headingStructure ∧
          issue.kind ≠ .missingLabels) ∧
      (audit config text ≠ .ok () → ∃ first rest, report.issues = first :: rest ∧
        audit config text = .error (.violation first.message first.guideline (some first.kind))) ∧
      (allBlank text = true → report.issues = [] ∧ audit config text = .ok ()) := by
  obtain ⟨report, hReport, hIssues⟩ := validate_of_read hRead config filePath timestamp []
  have hAudit := audit_of_read hRead config
  have hStructural := @structuralIssues_eq_nil_iff config document
  simp only [IssueKind.structural, List.mem_cons, List.not_mem_nil, or_false, not_or,
    ← hIssues] at hStructural
  refine ⟨report, hReport, ?_, ?_, fun hBlank => ?_⟩
  · rw [hAudit, ← hStructural]
    split
    · rename_i hNone
      simp [hNone]
    · rename_i first rest hFirst
      simp [hFirst]
  · intro hFails
    rw [hAudit] at hFails ⊢
    cases hFound : structuralIssues config document with
    | nil => simp [hFound] at hFails
    | cons first rest =>
        refine ⟨first, rest ++ (furtherChecks config).flatMap fun check => check.run document,
          ?_, rfl⟩
        rw [hIssues, findIssues_all, hFound, List.cons_append]
  · have hNone : report.issues = [] :=
      hIssues.trans (findIssues_eq_nil_of_nodes (nodes_eq_nil_of_allBlank hRead hBlank) _ _)
    refine ⟨hNone, ?_⟩
    rw [hAudit, hStructural.2 (by simp [hNone])]

/-- The heading that skips two levels comes before the input in the report, though it stands behind
it in the text. -/
theorem audit_stops_at_heading :
    ∃ report, validate .standard "inline" "" [] "<input><h1></h1><h4></h4>".toList = .ok report ∧
      ∃ first rest, report.issues = first :: rest ∧
        audit .standard "<input><h1></h1><h4></h4>".toList =
          .error (.violation first.message first.guideline (some first.kind)) := by
  have hRead : Document.read "<input><h1></h1><h4></h4>".toList =
      .ok ⟨[.opened ⟨"input", [], some ⟨1, 0⟩⟩, .closed "input", .opened ⟨"h1", [], some ⟨1, 7⟩⟩,
        .closed "h1", .opened ⟨"h4", [], some ⟨1, 16⟩⟩, .closed "h4"]⟩ := by decide +kernel
  obtain ⟨report, hReport, -, hFails, -⟩ := audit_agrees_with_report hRead .standard "inline" ""
  refine ⟨report, hReport, hFails fun hPasses => ?_⟩
  have hError : (audit .standard "<input><h1></h1><h4></h4>".toList).toOption = none := by
    decide +kernel
  rw [hPasses] at hError
  simp [Except.toOption] at hError

end AccessibleMarkup
