import AccessibleMarkup.Proofs.JsonReading
import AccessibleMarkup.Report
import Mathlib.Data.List.Nodup

/-! Reports as JSON texts. A report is printed as an object with one member for each of its fields,
and this object is read back from the text, so that the text says all that the report says. -/
namespace AccessibleMarkup

open AccessibleMarkup.Json

theorem Json.ofOption_eq_elim (text : Option String) :
    Value.ofOption text = text.elim .null .string := by
  cases text <;> rfl

/-- A text that may be missing is told from null. -/
theorem Json.ofOption_injective : Function.Injective Value.ofOption := fun text other hValues => by
  cases text <;> cases other <;> cases hValues <;> rfl

namespace Report

/-- Two issues are told apart by their values. -/
theorem issueValue_injective : Function.Injective issueValue := fun issue other hValues => by
  simp only [issueValue, Value.object.injEq, List.cons.injEq, Prod.mk.injEq, Value.string.injEq,
    true_and, and_true] at hValues
  obtain ⟨hKind, hMessage, hGuideline, hElement, hSuggestion⟩ := hValues
  obtain ⟨kind, message, guideline, element, suggestion⟩ := issue
  obtain rfl := IssueKind.name_injective hKind
  obtain rfl := ofOption_injective hGuideline
  obtain rfl := ofOption_injective hElement
  obtain rfl := ofOption_injective hSuggestion
  obtain rfl := hMessage
  rfl

theorem summaryMember_injective :
    Function.Injective fun entry : String × Int => (entry.1, Value.number entry.2) :=
  fun entry other hMembers => by
    simp only [Prod.mk.injEq, Value.number.injEq] at hMembers
    exact Prod.ext hMembers.1 hMembers.2

/-- Reports are told from each other by their values. -/
theorem toValue_injective : Function.Injective toValue := fun report other hValues => by
  simp only [toValue, Value.object.injEq, List.cons.injEq, Prod.mk.injEq, Value.string.injEq,
    Value.number.injEq, Value.array.injEq, true_and, and_true] at hValues
  obtain ⟨hFile, hTime, hLevel, hElements, hCount, hDuration, hIssues, hSummary, -⟩ := hValues
  obtain ⟨filePath, timestamp, level, elementsChecked, issueCount, durationMs, issues, summary⟩ :=
    report
  obtain rfl := Level.name_injective hLevel
  obtain rfl := List.map_injective_iff.2 issueValue_injective hIssues
  obtain rfl := List.map_injective_iff.2 summaryMember_injective hSummary
  subst hFile hTime hElements hCount hDuration
  rfl

/-- A report comes back from its text as the value that was printed. -/
theorem read?_toJson (report : Report) :
    read? report.toJson.toList = some report.toValue := by
  rw [toJson, String.toList_ofList, read?_print]

end Report

/-- Under distinct names each member is the one that is found first. -/
theorem Json.find?_member_iff {members : List (String × Value)}
    (hDistinct : (members.map (·.1)).Nodup) {name : String} {value : Value} :
    (members.find? fun member => member.1 = name).map (·.2) = some value ↔
      (name, value) ∈ members := by
  induction members with
  | nil => simp
  | cons member members ih =>
      obtain ⟨hFirst, hRest⟩ := List.nodup_cons.1 hDistinct
      by_cases hName : member.1 = name
      · have hBehind : (name, value) ∉ members := fun hMem =>
          hFirst (List.mem_map.2 ⟨_, hMem, hName.symm⟩)
        rw [List.find?_cons_of_pos (by simpa using hName), List.mem_cons, or_iff_left hBehind]
        subst hName
        simp [Prod.ext_iff, eq_comm]
      · have hOther : (name, value) ≠ member := fun hSame => hName (hSame ▸ rfl)
        rw [List.find?_cons_of_neg (by simpa using hName), ih hRest, List.mem_cons,
          or_iff_right hOther]

/-- The members of an object with distinct names are found under their names. -/
theorem Json.member?_object_iff {members : List (String × Value)}
    (hDistinct : (members.map (·.1)).Nodup) {name : String} {value : Value} :
    (Value.object members).member? name = some value ↔ (name, value) ∈ members := by
  have hReverse : (members.reverse.map (·.1)).Nodup := by
    rwa [List.map_reverse, List.nodup_reverse]
  exact (find?_member_iff hReverse).trans List.mem_reverse

/-- The JSON text of a report is ASCII, and the object that is read from it has the fields of the
report as its members: the level and the kinds of the issues by their names, null for a guideline,
an element or a suggestion that is missing, the summary in its order, and whether the report passed.
Under different names the entries of the summary are found there. Reports with the same text are
the same. -/
theorem json_tells_report (report : Report) :
    IsAscii report.toJson.toList ∧
      read? report.toJson.toList =
        some (.object
          [("file_path", .string report.filePath),
            ("timestamp", .string report.timestamp),
            ("wcag_level", .string report.level.name),
            ("elements_checked", .number report.elementsChecked),
            ("issue_count", .number report.issueCount),
            ("check_duration_ms", .number report.durationMs),
            ("issues", .array (report.issues.map fun issue => .object
              [("issue_type", .string issue.kind.name),
                ("message", .string issue.message),
                ("guideline", issue.guideline.elim .null .string),
                ("element", issue.element.elim .null .string),
                ("suggestion", issue.suggestion.elim .null .string)])),
            ("summary", .object (report.summary.map fun entry => (entry.1, .number entry.2))),
            ("passed", .bool (report.issueCount = 0))]) ∧
      ((report.summary.map (·.1)).Nodup → ∀ name count,
        ((read? report.toJson.toList).bind (·.member? "summary")).bind (·.member? name) =
            some (.number count) ↔
          (name, count) ∈ report.summary) ∧
      ∀ other : Report, other.toJson = report.toJson → other = report := by
  have hRead := report.read?_toJson
  refine ⟨?_, ?_, fun hDistinct name count => ?_, fun other hJson => ?_⟩
  · rw [Report.toJson, String.toList_ofList]
    exact isAscii_print _
  · have hIssue : Report.issueValue = fun issue => .object
        [("issue_type", .string issue.kind.name),
          ("message", .string issue.message),
          ("guideline", issue.guideline.elim .null .string),
          ("element", issue.element.elim .null .string),
          ("suggestion", issue.suggestion.elim .null .string)] := by
      funext issue
      simp only [Report.issueValue, ofOption_eq_elim]
    rw [hRead, Report.toValue, hIssue, Report.passed]
  · have hSummary : (report.toValue.member? "summary") =
        some (.object (report.summary.map fun entry => (entry.1, .number entry.2))) := rfl
    have hNames : ((report.summary.map fun entry => (entry.1, Value.number entry.2)).map
        (·.1)).Nodup := by
      rwa [List.map_map]
    rw [hRead, Option.bind_some, hSummary, Option.bind_some, member?_object_iff hNames]
    simp
  · have hPrint := congrArg String.toList hJson
    rw [Report.toJson, Report.toJson, String.toList_ofList, String.toList_ofList] at hPrint
    exact Report.toValue_injective (print_injective hPrint)

/-- A report on a page with quotes and a letter beyond ASCII in its path tells its counts. -/
theorem json_tells_counts_of_quoted_path :
    ["missing_alt_text", "missing_aria_label"].Nodup ∧
      ((read? (Report.toJson ⟨"\"caf\u00E9\".html", "2024-01-01T00:00:00", .aa, 5, 3, 0, [],
        [("missing_alt_text", 1), ("missing_aria_label", 2)]⟩).toList).bind
          (·.member? "summary")).bind (·.member? "missing_aria_label") = some (.number 2) := by
  have hDistinct : ["missing_alt_text", "missing_aria_label"].Nodup := by decide
  refine ⟨hDistinct, ((json_tells_report _).2.2.1 ?_ "missing_aria_label" 2).2 ?_⟩
  · exact hDistinct
  · exact List.mem_cons_of_mem _ (List.mem_cons_self ..)

end AccessibleMarkup
