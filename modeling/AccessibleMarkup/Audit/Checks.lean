import AccessibleMarkup.Aria.Cleanup
import AccessibleMarkup.Audit.Issue
import AccessibleMarkup.Audit.LanguageCode
import AccessibleMarkup.Markup.Document.Printer
import AccessibleMarkup.Text.Numeral

/-! The checks. Each reads a document and lists the issues that it finds, in document order. -/
namespace AccessibleMarkup

open AccessibleMarkup.Markup
open AccessibleMarkup.Text

def issueOf (node : Node) (kind : IssueKind) (guideline message suggestion : String) : Issue :=
  { kind := kind
    message := message
    guideline := some guideline
    element := some node.describe
    suggestion := some suggestion }

/-- Every image has a text alternative, which may be empty. -/
def imageIssues (document : Document) : List Issue :=
  (document.nodes.filter fun node => node.element.name = "img" && !node.element.has "alt").map
    fun node =>
      issueOf node .missingAltText "WCAG 1.1.1"
        ("Image missing alt attribute: " ++ (node.element.value? "src").getD "unknown")
        "Add alt text, or alt=\"\" for decorative images"

def headingNames : List String := ["h1", "h2", "h3", "h4", "h5", "h6"]

/-- The level of a heading, counted from one. Other elements have none. -/
def headingLevel? (element : Element) : Option Nat :=
  (headingNames.findIdx? (· = element.name)).map (· + 1)

def headings (document : Document) : List (Nat × Node) :=
  document.nodes.filterMap fun node =>
    (headingLevel? node.element).map fun level => (level, node)

/-- A heading may lie at any level above the one before and at most `maxJump` levels below it. -/
def skipsLevel (maxJump : Int) (before level : Nat) : Bool :=
  (before : Int) + maxJump < level

def headingIssue (before level : Nat) (node : Node) : Issue :=
  issueOf node .headingStructure "WCAG 2.4.6"
    ("Skipped heading level from h" ++ toString before ++ " to h" ++ toString level)
    ("Use h" ++ toString (before + 1) ++ " instead of h" ++ toString level)

/-- `headingIssues` behind the issues already found, last first, and a heading of the level
`before`, which is 0 at the front. -/
def headingIssuesOnto (maxJump : Int) (found : List Issue) (before : Nat) :
    List (Nat × Node) → List Issue
  | [] => found.reverse
  | (level, node) :: rest =>
    if 0 < before && skipsLevel maxJump before level then
      headingIssuesOnto maxJump (headingIssue before level node :: found) level rest
    else headingIssuesOnto maxJump found level rest

/-- No heading skips a level behind the heading before it. -/
def headingIssues (maxJump : Int) (document : Document) : List Issue :=
  headingIssuesOnto maxJump [] 0 (headings document)

/-- Every input has an id for a label to refer to, or a label of its own. -/
def inputIssues (document : Document) : List Issue :=
  (document.nodes.filter fun node =>
    node.element.name = "input" && !node.element.has "id" &&
      !node.element.has "aria-label").map
    fun node =>
      issueOf node .missingLabels "WCAG 1.3.1"
        ("Input missing id or aria-label: " ++ (node.element.value? "name").getD "unnamed")
        "Add <label for='id'> or aria-label attribute"

/-- Every ARIA attribute is recognised and has a value it may have. -/
def ariaIssues (document : Document) : List Issue :=
  (Aria.findInvalid document).map fun invalid =>
    issueOf invalid.1 .invalidAria "WCAG 4.1.2"
      ("Invalid ARIA attribute " ++ invalid.2.name ++ "=" ++ inQuotes invalid.2.value)
      "Use a recognised ARIA attribute with a valid value"

/-- The document declares its language, if it has a root. -/
def rootLanguageIssues (document : Document) : List Issue :=
  match document.elements.find? fun element => element.name = "html" with
  | none => []
  | some root =>
    if root.has "lang" then []
    else
      [{ kind := .languageDeclaration
         message := "Missing language declaration on html element"
         guideline := some "WCAG 3.1.1"
         element := some "<html>"
         suggestion := some "Add lang attribute: <html lang=\"en\">" }]

def languageCodeIssues (document : Document) : List Issue :=
  document.nodes.filterMap fun node =>
    match node.element.value? "lang" with
    | none => none
    | some code =>
      if isLanguageCode code.toList then none
      else
        some (issueOf node .languageDeclaration "WCAG 3.1.2"
          ("Invalid language code: " ++ code) "Use a valid BCP 47 language code")

/-- The document declares its language, and every declared language is a language code. -/
def languageIssues (document : Document) : List Issue :=
  rootLanguageIssues document ++ languageCodeIssues document

/-- The names of elements that take part in keyboard navigation by themselves. -/
def interactiveNames : List String := ["a", "button", "input", "select", "textarea"]

def isInteractive (element : Element) : Bool :=
  interactiveNames.contains element.name || element.has "tabindex"

def isTakenOut (element : Element) : Bool :=
  match element.value? "tabindex" with
  | none => false
  | some written =>
    match readInteger? written.toList with
    | none => false
    | some index => index < 0

/-- The element answers to the mouse and not to the keyboard. -/
def isMouseOnly (element : Element) : Bool :=
  element.has "onclick" && !element.has "onkeypress" && !element.has "onkeydown"

def keyboardIssuesOf (node : Node) : List Issue :=
  (if isTakenOut node.element then
    [issueOf node .keyboardNavigation "WCAG 2.1.1" "Negative tabindex prevents keyboard focus"
      "Remove negative tabindex value"]
  else []) ++
  (if isMouseOnly node.element then
    [issueOf node .keyboardNavigation "WCAG 2.1.1" "Click handler without keyboard equivalent"
      "Add keyboard event handlers"]
  else [])

/-- No interactive element keeps the keyboard out. -/
def keyboardIssues (document : Document) : List Issue :=
  (document.nodes.filter fun node => isInteractive node.element).flatMap keyboardIssuesOf

/-- The elements that may have any role. -/
def permissiveNames : List String := ["div", "span", "a"]

/-- The roles that an element may have, if it may not have any role. -/
def acceptedRoles (name : String) : List String :=
  match name with
  | "button" => ["button", "link", "menuitem"]
  | "input" => ["textbox", "radio", "checkbox", "button"]
  | "div" => ["alert", "tooltip", "dialog", "slider"]
  | "a" => ["link", "button", "menuitem"]
  | _ => []

def acceptsRole (name role : String) : Bool :=
  permissiveNames.contains name || (acceptedRoles name).contains role

/-- The attributes that an element of a role has to carry. -/
def requiredProperties (role : String) : List String :=
  match role with
  | "slider" => ["aria-valuenow", "aria-valuemin", "aria-valuemax"]
  | "combobox" => ["aria-expanded"]
  | _ => []

def roleIssuesOf (node : Node) : List Issue :=
  match node.element.value? "role" with
  | none => []
  | some role =>
    let name := node.element.name
    let missing := (requiredProperties role).filter fun property => !node.element.has property
    (if acceptsRole name role then []
    else
      [issueOf node .invalidAria "WCAG 4.1.2"
        ("Invalid ARIA role '" ++ role ++ "' for <" ++ name ++ ">") "Use appropriate ARIA role"]) ++
    (if missing.isEmpty then []
    else
      [issueOf node .invalidAria "WCAG 4.1.2"
        ("Missing required ARIA properties: " ++ ", ".intercalate missing)
        "Add required ARIA properties"])

/-- Roles fit their elements, and elements carry what their roles require. -/
def roleIssues (document : Document) : List Issue :=
  document.nodes.flatMap roleIssuesOf

end AccessibleMarkup
