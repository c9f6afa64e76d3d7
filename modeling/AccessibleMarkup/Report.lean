import AccessibleMarkup.Audit.Issue
import AccessibleMarkup.Json.Printer
import AccessibleMarkup.Level
import AccessibleMarkup.Text.Blank

/-! Reports on the accessibility of a document, and their two forms as text. -/
namespace AccessibleMarkup

open AccessibleMarkup.Text

/-- A report. The summary counts issues by the name of their kind. -/
structure Report where
  filePath : String
  timestamp : String
  level : Level := .aa
  elementsChecked : Int := 0
  issueCount : Int := 0
  durationMs : Int := 0
  issues : List Issue := []
  summary : List (String × Int) := []
  deriving DecidableEq

namespace Report

def passed (report : Report) : Bool := report.issueCount = 0

def issueValue (issue : Issue) : Json.Value :=
  .object
    [("issue_type", .string issue.kind.name),
      ("message", .string issue.message),
      ("guideline", .ofOption issue.guideline),
      ("element", .ofOption issue.element),
      ("suggestion", .ofOption issue.suggestion)]

def toValue (report : Report) : Json.Value :=
  .object
    [("file_path", .string report.filePath),
      ("timestamp", .string report.timestamp),
      ("wcag_level", .string report.level.name),
      ("elements_checked", .number report.elementsChecked),
      ("issue_count", .number report.issueCount),
      ("check_duration_ms", .number report.durationMs),
      ("issues", .array (report.issues.map issueValue)),
      ("summary", .object (report.summary.map fun entry => (entry.1, .number entry.2))),
      ("passed", .bool report.passed)]

def toJson (report : Report) : String :=
  String.ofList report.toValue.print

/-- A line of the given character across the report. -/
def rule (mark : Char) : String :=
  String.ofList (List.replicate 70 mark)

def sortedSummary (report : Report) : List (String × Int) :=
  report.summary.mergeSort fun one other => one.1 ≤ other.1

def headLines (report : Report) : List String :=
  [rule '=',
    "WCAG " ++ report.level.name ++ " ACCESSIBILITY REPORT",
    rule '=',
    "File: " ++ report.filePath,
    "Timestamp: " ++ report.timestamp,
    rule '-',
    "Elements checked: " ++ toString report.elementsChecked,
    "Total Issues: " ++ toString report.issueCount] ++
  report.sortedSummary.map (fun entry => "  " ++ entry.1 ++ ": " ++ toString entry.2) ++
  [rule '-', "Passed: " ++ (if report.passed then "YES" else "NO"), rule '=']

/-- A line for a text that is there and not empty. -/
def optionalLine (lead : String) (text : Option String) : List String :=
  match text with
  | none => []
  | some text => if text.isEmpty then [] else [lead ++ text]

def issueLines (number : Nat) (issue : Issue) : List String :=
  let first := toString number ++ ". [" ++ issue.kind.name ++ "] " ++ issue.guideline.getD ""
  String.ofList (trimEnd first.toList) ::
    (optionalLine "   Element: " issue.element ++
      ("   Issue: " ++ issue.message) :: (optionalLine "   Fix: " issue.suggestion ++ [""]))

def lines (report : Report) : List String :=
  report.headLines ++
    if report.issues.isEmpty then []
    else
      "\nISSUES FOUND:\n" ::
        report.issues.zipIdx.flatMap fun numbered => issueLines (numbered.2 + 1) numbered.1

def toText (report : Report) : String :=
  "\n".intercalate report.lines

end Report

end AccessibleMarkup
