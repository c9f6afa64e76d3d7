import AccessibleMarkup.Labelling

/-!
Enhancing markup: labels where they are missing, then no invalid ARIA attributes, and last the
gate, so that no text with an invalid attribute comes out.
-/
namespace AccessibleMarkup

open AccessibleMarkup.Text

/-- The size of a text in bytes, which may not be greater than `maxSize`. -/
def checkSize (text : List Char) : Except Failure Nat :=
  let size := Utf8.byteLength text
  if maxSize < size then .error (.tooLarge size maxSize) else .ok size

/-- The text with the labels that all the rules add, one rule after the other. -/
def addLabels (rules : List Rule) (text : List Char) : Logged (List Char) :=
  rules.foldlM (fun text rule => rule.apply text) text

def enhanceLogged (config : Config) (text : List Char) : Logged (List Char) := do
  let size ← Logged.ofOutcome (checkSize text)
  Logged.line ("Enhancing " ++ toString size ++ " bytes of HTML")
  let labelled ← addLabels config.rules text
  let cleaned ← Aria.clean labelled
  Logged.ofOutcome (Aria.gate cleaned)
  return cleaned

def enhance (config : Config) (text : List Char) : Except Failure (List Char) :=
  (enhanceLogged config text).outcome

end AccessibleMarkup
