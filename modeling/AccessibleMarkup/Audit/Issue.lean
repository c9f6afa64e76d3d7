import AccessibleMarkup.Audit.IssueKind

/-! Accessibility issues. -/
namespace AccessibleMarkup

/-- An accessibility issue. The guideline, the element at fault and a suggestion may be unknown. -/
structure Issue where
  kind : IssueKind
  message : String
  guideline : Option String
  element : Option String
  suggestion : Option String
  deriving DecidableEq

end AccessibleMarkup
