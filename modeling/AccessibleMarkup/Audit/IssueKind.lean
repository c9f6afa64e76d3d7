/-! The kinds of accessibility issues. -/
namespace AccessibleMarkup

inductive IssueKind where
  | missingAltText
  | headingStructure
  | missingLabels
  | invalidAria
  | keyboardNavigation
  | languageDeclaration
  deriving DecidableEq

namespace IssueKind

def name : IssueKind → String
  | .missingAltText => "missing_alt_text"
  | .headingStructure => "heading_structure"
  | .missingLabels => "missing_labels"
  | .invalidAria => "invalid_aria"
  | .keyboardNavigation => "keyboard_navigation"
  | .languageDeclaration => "language_declaration"

def all : List IssueKind :=
  [.missingAltText, .headingStructure, .missingLabels, .invalidAria, .keyboardNavigation,
    .languageDeclaration]

def ofName? (name : String) : Option IssueKind :=
  all.find? fun kind => kind.name = name

/-- Kinds are told apart by their names. -/
theorem ofName?_name (kind : IssueKind) : ofName? kind.name = some kind := by
  cases kind <;> decide

/-- Kinds have different names. -/
theorem name_injective : Function.Injective name := fun kind other hNames => by
  have hSame := congrArg ofName? hNames
  rw [ofName?_name, ofName?_name] at hSame
  exact Option.some.inj hSame

end IssueKind

end AccessibleMarkup
