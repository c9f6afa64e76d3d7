import AccessibleMarkup.Audit.Checks
import AccessibleMarkup.Config
import AccessibleMarkup.Report

/-!
Running the checks. An audit stops at the first structural issue; a validation runs all checks and
reports what they find.
-/
namespace AccessibleMarkup

open AccessibleMarkup.Markup
open AccessibleMarkup.Text

/-- The issues that an audit stops at: images, then headings, then inputs. -/
def structuralIssues (config : Config) (document : Document) : List Issue :=
  imageIssues document ++ headingIssues config.maxHeadingJump document ++ inputIssues document

def auditFailure (issue : Issue) : Failure :=
  .violation issue.message issue.guideline (some issue.kind)

def auditLogged (config : Config) (text : List Char) : Logged Unit := do
  let document ← Logged.ofOutcome (Aria.readDocument text)
  match structuralIssues config document with
  | [] => return ()
  | issue :: _ =>
    Logged.line ("Audit failed: " ++ issue.message)
    Logged.ofOutcome (.error (auditFailure issue))

/-- Fails with the first structural issue of a text, if it has one. -/
def audit (config : Config) (text : List Char) : Except Failure Unit :=
  (auditLogged config text).outcome

/-- A check, and the kind of the issues that it lists. -/
structure Check where
  kind : IssueKind
  run : Document → List Issue

/-- The checks that a configuration asks for, in the order in which they run. Roles are checked from
the middle level on. -/
def checks (config : Config) : List Check :=
  [⟨.missingAltText, imageIssues⟩,
    ⟨.headingStructure, headingIssues config.maxHeadingJump⟩,
    ⟨.missingLabels, inputIssues⟩,
    ⟨.invalidAria, ariaIssues⟩,
    ⟨.languageDeclaration, languageIssues⟩,
    ⟨.keyboardNavigation, keyboardIssues⟩] ++
  if Level.aa ≤ config.level then [⟨.invalidAria, roleIssues⟩] else []

def findIssues (config : Config) (disabled : List IssueKind) (document : Document) :
    List Issue :=
  ((checks config).filter fun check => !disabled.contains check.kind).flatMap fun check =>
    check.run document

/-- Counts one more under a name, which is added behind the others if it is new. -/
def countUnder (counts : List (String × Int)) (name : String) : List (String × Int) :=
  if counts.any fun entry => entry.1 = name then
    counts.map fun entry => if entry.1 = name then (name, entry.2 + 1) else entry
  else counts ++ [(name, 1)]

/-- How many issues there are of each kind, in the order in which the kinds first occur. -/
def summarize (issues : List Issue) : List (String × Int) :=
  issues.foldl (fun counts issue => countUnder counts issue.kind.name) []

def reportOn (config : Config) (filePath timestamp : String) (disabled : List IssueKind)
    (document : Document) : Report :=
  let issues := findIssues config disabled document
  { filePath := filePath
    timestamp := timestamp
    level := config.level
    elementsChecked := document.elements.length
    issueCount := issues.length
    issues := issues
    summary := summarize issues }

def reportLine (report : Report) : String :=
  "Checked " ++ toString report.elementsChecked ++ " elements, found " ++
    toString report.issueCount ++ " issue(s)"

/-- Validates a text, keeping a log. A text of white space is not read at all. -/
def validateLogged (config : Config) (filePath timestamp : String)
    (disabled : List IssueKind) (text : List Char) : Logged Report := do
  if allBlank text then
    return { filePath := filePath, timestamp := timestamp, level := config.level }
  let document ← Logged.ofOutcome (Aria.readDocument text)
  let report := reportOn config filePath timestamp disabled document
  Logged.line (reportLine report)
  return report

def validate (config : Config) (filePath timestamp : String) (disabled : List IssueKind)
    (text : List Char) : Except Failure Report :=
  (validateLogged config filePath timestamp disabled text).outcome

end AccessibleMarkup
