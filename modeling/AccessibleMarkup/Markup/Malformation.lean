/-! What can be wrong with markup that an operation was asked to work on. -/
namespace AccessibleMarkup.Markup

/-- Why an operation on a markup text cannot be carried out. -/
inductive Malformation where
  /-- The element of that name was made and not read. -/
  | noPosition (name : String)
  /-- At the place of the element of that name stands something else, the fragment. -/
  | noOpenTag (name : String) (fragment : String)
  /-- The replaced pieces overlap, or one reaches behind the text; the fragment is such a piece. -/
  | overlappingEdits (fragment : String)
  /-- A fault in words. -/
  | described (problem : String) (fragment : Option String)
  deriving DecidableEq

namespace Malformation

def problem : Malformation → String
  | .noPosition name => "No source position recorded for <" ++ name ++ ">"
  | .noOpenTag name _ => "Cannot locate opening tag of <" ++ name ++ ">"
  | .overlappingEdits _ => "Overlapping edits"
  | .described problem _ => problem

def fragment? : Malformation → Option String
  | .noPosition _ => none
  | .noOpenTag _ fragment => some fragment
  | .overlappingEdits fragment => some fragment
  | .described _ fragment => fragment

end Malformation

end AccessibleMarkup.Markup
