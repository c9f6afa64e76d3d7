import AccessibleMarkup.Proofs.Verdicts

/-! Reports that leave checks out. A check lists issues of its own kind and looks at the document
alone, so a report without some checks is the full report without the issues of their kinds. The
conformance level decides about one check, and that one comes last. -/
namespace AccessibleMarkup

open AccessibleMarkup.Markup
open AccessibleMarkup.Text

def Config.withLevel (config : Config) (level : Level) : Config :=
  { config with level := level }

def enabledIssues (disabled : List IssueKind) (issues : List Issue) : List Issue :=
  issues.filter fun issue => !disabled.contains issue.kind

/-- What is left after two lists of kinds is what is left after both at once. -/
theorem enabledIssues_append (first second : List IssueKind) (issues : List Issue) :
    enabledIssues (first ++ second) issues =
      enabledIssues second (enabledIssues first issues) := by
  rw [enabledIssues, enabledIssues, enabledIssues, List.filter_filter]
  refine List.filter_congr fun issue _ => ?_
  rw [List.contains_append, Bool.not_or, Bool.and_comm]

/-- Disabling more kinds never adds an issue. -/
theorem enabledIssues_sublist {fewer more : List IssueKind} (hMore : fewer ⊆ more)
    (issues : List Issue) :
    (enabledIssues more issues).Sublist (enabledIssues fewer issues) := by
  refine List.monotone_filter_right issues fun issue hKept => ?_
  simp only [Bool.not_eq_true', List.contains_eq_mem, decide_eq_false_iff_not] at hKept ⊢
  exact fun hMem => hKept (hMore hMem)

/-- Issues of one kind stay or go together. -/
theorem enabledIssues_of_kind (disabled : List IssueKind) {kind : IssueKind} {issues : List Issue}
    (hKind : ∀ issue ∈ issues, issue.kind = kind) :
    enabledIssues disabled issues = if disabled.contains kind then [] else issues := by
  have hKept : enabledIssues disabled issues = issues.filter fun _ => !disabled.contains kind :=
    List.filter_congr fun issue hMem => by rw [hKind issue hMem]
  rw [hKept]
  cases disabled.contains kind <;> simp

/-- The checks of the enabled kinds find the issues of these kinds. -/
theorem flatMap_run_enabled {document : Document} (disabled : List IssueKind) {found : List Check}
    (hKinds : ∀ check ∈ found, ∀ issue ∈ check.run document, issue.kind = check.kind) :
    ((found.filter fun check => !disabled.contains check.kind).flatMap fun check =>
        check.run document) =
      enabledIssues disabled (found.flatMap fun check => check.run document) := by
  induction found with
  | nil => rfl
  | cons check rest ih =>
      have hRest := ih fun other hMem => hKinds other (List.mem_cons_of_mem _ hMem)
      have hOwn := enabledIssues_of_kind disabled (hKinds check (List.mem_cons_self ..))
      have hAll : enabledIssues disabled ((check :: rest).flatMap fun check => check.run document) =
          enabledIssues disabled (check.run document) ++
            enabledIssues disabled (rest.flatMap fun check => check.run document) :=
        List.filter_append ..
      rw [hAll, hOwn, ← hRest, List.filter_cons]
      cases disabled.contains check.kind <;> simp

/-- A report with kinds disabled lists the issues of the other kinds. -/
theorem findIssues_disabled (config : Config) (disabled : List IssueKind) (document : Document) :
    findIssues config disabled document =
      enabledIssues disabled (findIssues config [] document) := by
  have hAll : findIssues config [] document =
      (checks config).flatMap fun check => check.run document := by
    simp [findIssues]
  rw [hAll]
  exact flatMap_run_enabled disabled (kind_of_mem_run document)

/-- From the middle level on roles are checked, behind all that the lowest level checks. -/
theorem checks_withLevel (config : Config) (level : Level) :
    checks (config.withLevel level) =
      checks (config.withLevel .a) ++
        if Level.aa ≤ level then [⟨.invalidAria, roleIssues⟩] else [] := by
  cases level <;> rfl

/-- The level decides on the issues of roles alone, which come last. -/
theorem findIssues_withLevel (config : Config) (level : Level) (document : Document) :
    findIssues (config.withLevel level) [] document =
      findIssues (config.withLevel .a) [] document ++
        if Level.aa ≤ level then roleIssues document else [] := by
  simp only [findIssues, List.contains_nil, Bool.not_false, List.filter_true]
  rw [checks_withLevel, List.flatMap_append]
  split <;> simp

/-- The report on a text that can be read is the one on its document, also where the text is white
space and is not read. -/
theorem validate_eq_reportOn {text : List Char} {document : Document}
    (hRead : Document.read text = .ok document) (config : Config) (filePath timestamp : String)
    (disabled : List IssueKind) :
    validate config filePath timestamp disabled text =
      .ok (reportOn config filePath timestamp disabled document) := by
  by_cases hBlank : allBlank text = true
  · have hNodes := nodes_eq_nil_of_allBlank hRead hBlank
    have hElements : document.elements = [] := by
      rw [← document.map_element_nodes, hNodes]
      rfl
    have hIssues := findIssues_eq_nil_of_nodes hNodes config disabled
    simp [validate, validateLogged, hBlank, reportOn, hIssues, hElements, summarize]
  · simp [validate, validateLogged, hBlank, Aria.readDocument, hRead]

/-- Disabling kinds of issues takes the issues of these kinds out of the report and changes neither
the order of the others nor the number of elements. Disabling some kinds and then others is
disabling all of them, and disabling more never adds an issue. Configurations that differ in the
level alone lead to the same issues at the two upper levels, and at the lowest one to a report that
stops short of the issues of roles. -/
theorem reports_are_filtered {text : List Char} {document : Document}
    (hRead : Document.read text = .ok document) (config : Config) (filePath timestamp : String)
    (disabled : List IssueKind) :
    ∃ full report,
      validate config filePath timestamp [] text = .ok full ∧
      validate config filePath timestamp disabled text = .ok report ∧
      report.issues = full.issues.filter (fun issue => !disabled.contains issue.kind) ∧
      report.elementsChecked = full.elementsChecked ∧
      (∀ more, ∃ both, validate config filePath timestamp (disabled ++ more) text = .ok both ∧
        both.issues = report.issues.filter fun issue => !more.contains issue.kind) ∧
      (∀ more, disabled ⊆ more → ∃ fewer,
        validate config filePath timestamp more text = .ok fewer ∧
          fewer.issues.Sublist report.issues) ∧
      ∃ low middle high,
        validate (config.withLevel .a) filePath timestamp disabled text = .ok low ∧
        validate (config.withLevel .aa) filePath timestamp disabled text = .ok middle ∧
        validate (config.withLevel .aaa) filePath timestamp disabled text = .ok high ∧
        high.issues = middle.issues ∧
        middle.issues = low.issues ++
          (if disabled.contains .invalidAria then [] else roleIssues document) := by
  have hReport (config : Config) (disabled : List IssueKind) :=
    validate_eq_reportOn hRead config filePath timestamp disabled
  have hDisabled (config : Config) (disabled : List IssueKind) :=
    findIssues_disabled config disabled document
  refine ⟨_, _, hReport config [], hReport config disabled,
    hDisabled config disabled, rfl, ?_, ?_, ?_⟩
  · intro more
    refine ⟨_, hReport config (disabled ++ more), ?_⟩
    simp only [reportOn]
    rw [hDisabled config (disabled ++ more), hDisabled config disabled, enabledIssues_append]
    rfl
  · intro more hMore
    refine ⟨_, hReport config more, ?_⟩
    simp only [reportOn]
    rw [hDisabled config more, hDisabled config disabled]
    exact enabledIssues_sublist hMore _
  · refine ⟨_, _, _, hReport _ disabled, hReport _ disabled, hReport _ disabled, ?_, ?_⟩
    · simp only [reportOn]
      rw [hDisabled (config.withLevel .aaa), hDisabled (config.withLevel .aa),
        findIssues_withLevel config .aaa, findIssues_withLevel config .aa]
      rfl
    · have hRoles := enabledIssues_of_kind disabled fun issue hMem =>
        @kind_of_mem_roleIssues document issue hMem
      have hMiddle : Level.aa ≤ Level.aa := by decide
      simp only [reportOn]
      rw [hDisabled (config.withLevel .aa), findIssues_withLevel, if_pos hMiddle,
        hDisabled (config.withLevel .a) disabled, ← hRoles]
      exact List.filter_append ..

/-- The image has no text alternative and the role lacks what it requires. -/
theorem report_without_images :
    ∃ full report,
      validate .standard "inline" "" [] "<img><div role=slider></div>".toList = .ok full ∧
      validate .standard "inline" "" [.missingAltText] "<img><div role=slider></div>".toList =
        .ok report ∧
      report.issues =
        full.issues.filter fun issue => !(List.contains [.missingAltText] issue.kind) := by
  have hRead : Document.read "<img><div role=slider></div>".toList =
      .ok ⟨[.opened ⟨"img", [], some ⟨1, 0⟩⟩, .closed "img",
        .opened ⟨"div", [⟨"role", "slider"⟩], some ⟨1, 5⟩⟩, .closed "div"]⟩ := by decide +kernel
  obtain ⟨full, report, hFull, hReport, hIssues, -⟩ :=
    reports_are_filtered hRead .standard "inline" "" [.missingAltText]
  exact ⟨full, report, hFull, hReport, hIssues⟩

end AccessibleMarkup
