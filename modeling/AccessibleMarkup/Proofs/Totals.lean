import AccessibleMarkup.Proofs.PartialReports
import Mathlib.Algebra.BigOperators.Ring.Finset

/-! The totals of a report. The summary is kept by a fold that counts one issue after the other
under the name of its kind. It has one entry for each kind that occurs, in the order in which the
kinds first occur, whatever checks the issues come from. -/
namespace AccessibleMarkup

open AccessibleMarkup.Markup
open AccessibleMarkup.Text

def firstKinds (kinds : List IssueKind) : List IssueKind :=
  kinds.reverse.dedup.reverse

def tally (kinds : List IssueKind) : List (String × Int) :=
  (firstKinds kinds).map fun kind => (kind.name, (kinds.count kind : Int))

section
variable {kinds : List IssueKind} {kind : IssueKind}

@[simp] theorem mem_firstKinds : kind ∈ firstKinds kinds ↔ kind ∈ kinds := by
  simp [firstKinds]

theorem firstKinds_append_of_mem (hMem : kind ∈ kinds) :
    firstKinds (kinds ++ [kind]) = firstKinds kinds := by
  rw [firstKinds, List.reverse_append, List.reverse_singleton, List.singleton_append,
    List.dedup_cons_of_mem (List.mem_reverse.2 hMem), firstKinds]

theorem firstKinds_append_of_not_mem (hNew : kind ∉ kinds) :
    firstKinds (kinds ++ [kind]) = firstKinds kinds ++ [kind] := by
  rw [firstKinds, List.reverse_append, List.reverse_singleton, List.singleton_append,
    List.dedup_cons_of_notMem (fun hMem => hNew (List.mem_reverse.1 hMem)), List.reverse_cons,
    firstKinds]

/-- Each of the kinds first occurs before those that are listed behind it. -/
theorem pairwise_firstKinds (kinds : List IssueKind) :
    (firstKinds kinds).Pairwise fun one other =>
      kinds.findIdx (· = one) < kinds.findIdx (· = other) := by
  induction kinds using List.reverseRecOn with
  | nil => exact .nil
  | append_singleton kinds last ih =>
      have hPlace : ∀ kind ∈ kinds,
          (kinds ++ [last]).findIdx (· = kind) = kinds.findIdx (· = kind) := by
        intro kind hMem
        have hWithin : kinds.findIdx (· = kind) < kinds.length :=
          List.findIdx_lt_length.2 ⟨kind, hMem, decide_eq_true rfl⟩
        rw [List.findIdx_append, if_pos hWithin]
      have hOld : (firstKinds kinds).Pairwise fun one other =>
          (kinds ++ [last]).findIdx (· = one) < (kinds ++ [last]).findIdx (· = other) := by
        refine ih.imp_of_mem fun {one other} hOne hOther hOrder => ?_
        rwa [hPlace one (mem_firstKinds.1 hOne), hPlace other (mem_firstKinds.1 hOther)]
      by_cases hMem : last ∈ kinds
      · rwa [firstKinds_append_of_mem hMem]
      · rw [firstKinds_append_of_not_mem hMem]
        refine List.pairwise_append.2 ⟨hOld, List.pairwise_singleton .., ?_⟩
        intro one hOne other hOther
        have hBehind : kinds.findIdx (· = last) = kinds.length :=
          List.findIdx_eq_length.2 fun kind hKind =>
            decide_eq_false fun hSame => hMem (hSame ▸ hKind)
        rw [List.mem_singleton.1 hOther, hPlace one (mem_firstKinds.1 hOne), List.findIdx_append,
          hBehind, if_neg (Nat.lt_irrefl _)]
        have hWithin : kinds.findIdx (· = one) < kinds.length :=
          List.findIdx_lt_length.2 ⟨one, mem_firstKinds.1 hOne, decide_eq_true rfl⟩
        omega

/-- Counting one more issue of a kind. -/
theorem countUnder_tally (kinds : List IssueKind) (kind : IssueKind) :
    countUnder (tally kinds) kind.name = tally (kinds ++ [kind]) := by
  have hFound : ((tally kinds).any fun entry => entry.1 = kind.name) = true ↔ kind ∈ kinds := by
    simp [tally, IssueKind.name_injective.eq_iff]
  have hOther : ∀ other, other ≠ kind → (kinds ++ [kind]).count other = kinds.count other := by
    intro other hNe
    rw [List.count_append, List.count_singleton, if_neg (by simpa using hNe.symm), Nat.add_zero]
  have hSame : (kinds ++ [kind]).count kind = kinds.count kind + 1 := by
    rw [List.count_append, List.count_singleton_self]
  by_cases hMem : kind ∈ kinds
  · rw [countUnder, if_pos (hFound.2 hMem), tally, tally, firstKinds_append_of_mem hMem,
      List.map_map]
    refine List.map_congr_left fun other _ => ?_
    by_cases hKind : other = kind
    · subst hKind
      simp [hSame]
    · simp [IssueKind.name_injective.eq_iff, hKind, hOther other hKind]
  · rw [countUnder, if_neg (fun hAny => hMem (hFound.1 hAny)), tally, tally,
      firstKinds_append_of_not_mem hMem, List.map_append]
    congr 1
    · refine List.map_congr_left fun other hIn => ?_
      have hKind : other ≠ kind := fun hEq => hMem (hEq ▸ mem_firstKinds.1 hIn)
      rw [hOther other hKind]
    · simp [List.count_eq_zero_of_not_mem hMem]

/-- The summary of issues counts their kinds. -/
theorem summarize_eq (issues : List Issue) : summarize issues = tally (issues.map Issue.kind) := by
  induction issues using List.reverseRecOn with
  | nil => rfl
  | append_singleton issues last ih =>
      have hStep : summarize (issues ++ [last]) = countUnder (summarize issues) last.kind.name := by
        simp [summarize]
      rw [hStep, ih, countUnder_tally, List.map_append, List.map_singleton]

/-- The counts of all kinds add up to the number of issues. -/
theorem sum_tally (kinds : List IssueKind) : ((tally kinds).map (·.2)).sum = kinds.length := by
  have hCounts : ((firstKinds kinds).map fun kind => kinds.count kind).sum = kinds.length := by
    have hAll := List.sum_map_count_dedup_eq_length kinds.reverse
    simp only [List.count_reverse, List.length_reverse] at hAll
    rw [firstKinds, List.map_reverse, List.sum_reverse, hAll]
  rw [← hCounts, Nat.cast_list_sum, tally, List.map_map, List.map_map]
  rfl

/-- A kind that occurs is counted once, with the number of its issues. -/
theorem mem_tally_iff {count : Int} :
    (kind.name, count) ∈ tally kinds ↔ kind ∈ kinds ∧ count = kinds.count kind := by
  simp only [tally, List.mem_map, Prod.mk.injEq, mem_firstKinds]
  constructor
  · rintro ⟨other, hMem, hName, rfl⟩
    obtain rfl := IssueKind.name_injective hName
    exact ⟨hMem, rfl⟩
  · rintro ⟨hMem, rfl⟩
    exact ⟨kind, hMem, rfl, rfl⟩

end

/-- A text without markup is read as one piece of text. -/
theorem scan_of_plain {text : List Char} (hOpen : '<' ∉ text) (hReference : '&' ∉ text) :
    scan text = ⟨if text.isEmpty then [] else [⟨.text, text⟩], [], none⟩ := by
  cases text with
  | nil => exact scanOnto_nil ..
  | cons c rest =>
      obtain ⟨hC, hRest⟩ := not_or.1 (List.mem_cons.not.1 hOpen)
      obtain ⟨hD, hBehind⟩ := not_or.1 (List.mem_cons.not.1 hReference)
      have hRun : splitRun (fun c _ => c != '<' && c != '&') rest = (rest, []) := by
        refine splitRun_eq_iff.2 ⟨(List.append_nil rest).symm, fun d hMem => ?_, trivial⟩
        have hD : d ≠ '<' ∧ d ≠ '&' :=
          ⟨fun hSame => hRest (hSame ▸ hMem), fun hSame => hBehind (hSame ▸ hMem)⟩
        simp [hD]
      have hStep : nextStep .first none c rest = .token .text rest none := by
        simp [nextStep, Ne.symm hC, Ne.symm hD, textStep, hRun]
      rw [scan, scanOnto_cons, hStep]
      simp

/-- White space alone can be read. -/
theorem exists_read_of_allBlank {text : List Char} (hBlank : allBlank text = true) :
    ∃ document, Document.read text = .ok document := by
  have hNot : ∀ c, isBlank c = false → c ∉ text := fun c hSolid hMem => by
    rw [List.all_eq_true.1 hBlank c hMem] at hSolid
    cases hSolid
  have hScan := scan_of_plain (hNot '<' (by decide)) (hNot '&' (by decide))
  refine ⟨Document.ofTokens (scan text).tokens, ?_⟩
  rw [Document.read, hScan]
  cases text <;> simp [Token.fault?]

/-- Each entry of a summary is for a kind whose first issue stands before those of the kinds
behind it. -/
theorem pairwise_summarize (issues : List Issue) :
    (summarize issues).Pairwise fun one other =>
      issues.findIdx (fun issue => issue.kind.name = one.1) <
        issues.findIdx fun issue => issue.kind.name = other.1 := by
  have hPlace : ∀ kind : IssueKind,
      issues.findIdx (fun issue => issue.kind.name = kind.name) =
        (issues.map Issue.kind).findIdx (· = kind) := by
    intro kind
    rw [List.findIdx_map]
    simp only [Function.comp_def, IssueKind.name_injective.eq_iff]
  rw [summarize_eq, tally, List.pairwise_map]
  simpa only [hPlace] using pairwise_firstKinds (issues.map Issue.kind)

/-- The summary counts the kinds of the issues, and no others. -/
theorem mem_summarize_iff {kind : IssueKind} {count : Int} {issues : List Issue} :
    (kind.name, count) ∈ summarize issues ↔
      (∃ issue ∈ issues, issue.kind = kind) ∧
        count = issues.countP fun issue => issue.kind = kind := by
  rw [summarize_eq, mem_tally_iff, List.mem_map, List.count_eq_countP, List.countP_map]
  rfl

/-- The report on white space is the one that is made without a check. -/
theorem reportOn_of_allBlank {text : List Char} {document : Document}
    (hRead : Document.read text = .ok document) (hBlank : allBlank text = true) (config : Config)
    (filePath timestamp : String) (disabled : List IssueKind) :
    reportOn config filePath timestamp disabled document =
      { filePath := filePath, timestamp := timestamp, level := config.level } := by
  have hReport := validate_eq_reportOn hRead config filePath timestamp disabled
  rw [validate, validateLogged, if_pos hBlank] at hReport
  exact (Except.ok.inj hReport).symm

/-- The totals of a report on a text that can be read are those of its issues. The summary counts
them: a kind has an entry exactly if an issue of that kind is listed, the entry gives the number of
these issues, and the entries come in the order in which the kinds first occur. Disabled kinds have
none. The report passes exactly if no issue is listed. White space alone can always be read, and
the checks lead to the report that is made there without them: no issue, no entry and no element. -/
theorem report_totals (text : List Char) (config : Config) (filePath timestamp : String)
    (disabled : List IssueKind) :
    (∀ document, Document.read text = .ok document →
      ∃ report, validate config filePath timestamp disabled text = .ok report ∧
        report.issueCount = report.issues.length ∧
        (report.summary.map (·.2)).sum = report.issueCount ∧
        (∀ entry ∈ report.summary, ∃ kind : IssueKind, entry.1 = kind.name) ∧
        (∀ (kind : IssueKind) (count : Int), (kind.name, count) ∈ report.summary ↔
          (∃ issue ∈ report.issues, issue.kind = kind) ∧
            count = report.issues.countP fun issue => issue.kind = kind) ∧
        (report.summary.Pairwise fun one other =>
          report.issues.findIdx (fun issue => issue.kind.name = one.1) <
            report.issues.findIdx fun issue => issue.kind.name = other.1) ∧
        (∀ kind ∈ disabled, ∀ count, (kind.name, count) ∉ report.summary) ∧
        (report.passed = true ↔ report.issues = [])) ∧
    (allBlank text = true →
      ∃ report document, Document.read text = .ok document ∧
        validate config filePath timestamp disabled text = .ok report ∧
        report = reportOn config filePath timestamp disabled document ∧
        report.issues = [] ∧ report.summary = [] ∧ report.elementsChecked = 0) := by
  constructor
  · intro document hRead
    refine ⟨_, validate_eq_reportOn hRead config filePath timestamp disabled, rfl, ?_, ?_,
      fun kind count => mem_summarize_iff, pairwise_summarize _, ?_, ?_⟩
    · simp [reportOn, summarize_eq, sum_tally]
    · intro entry hMem
      rw [reportOn, summarize_eq] at hMem
      obtain ⟨kind, -, rfl⟩ := List.mem_map.1 hMem
      exact ⟨kind, rfl⟩
    · intro kind hDisabled count hMem
      obtain ⟨⟨issue, hIssue, rfl⟩, -⟩ := mem_summarize_iff.1 hMem
      rw [findIssues_disabled] at hIssue
      have hKept := (List.mem_filter.1 hIssue).2
      simp [hDisabled] at hKept
    · simp [Report.passed, reportOn]
  · intro hBlank
    obtain ⟨document, hRead⟩ := exists_read_of_allBlank hBlank
    have hReport := reportOn_of_allBlank hRead hBlank config filePath timestamp disabled
    exact ⟨_, document, hRead, validate_eq_reportOn hRead config filePath timestamp disabled, rfl,
      by rw [hReport], by rw [hReport], by rw [hReport]⟩

/-- Two images without a text alternative with an input without a label in between, and an element
at which both checks of attributes and roles find something. -/
theorem report_totals_of_mixture :
    ∃ report,
      validate .standard "inline" "" [.keyboardNavigation]
        "<img><input><img><div role=slider aria-foo>".toList = .ok report ∧
      report.issueCount = report.issues.length ∧
      (report.summary.map (·.2)).sum = report.issueCount := by
  have hRead : Document.read "<img><input><img><div role=slider aria-foo>".toList =
      .ok ⟨[.opened ⟨"img", [], some ⟨1, 0⟩⟩, .closed "img",
        .opened ⟨"input", [], some ⟨1, 5⟩⟩, .closed "input",
        .opened ⟨"img", [], some ⟨1, 12⟩⟩, .closed "img",
        .opened ⟨"div", [⟨"role", "slider"⟩, ⟨"aria-foo", ""⟩], some ⟨1, 17⟩⟩,
        .closed "div"]⟩ := by decide +kernel
  obtain ⟨report, hReport, hCount, hSum, -⟩ :=
    (report_totals _ .standard "inline" "" [.keyboardNavigation]).1 _ hRead
  exact ⟨report, hReport, hCount, hSum⟩

example :
    ((validate .standard "inline" "" [.keyboardNavigation]
      "<img><input><img><div role=slider aria-foo>".toList).toOption.map Report.summary) =
      some [("missing_alt_text", 2), ("missing_labels", 1), ("invalid_aria", 2)] := by
  decide +kernel

end AccessibleMarkup
