import AccessibleMarkup.Aria.Vocabulary
import AccessibleMarkup.Logged
import AccessibleMarkup.Markup.Document.Builder
import AccessibleMarkup.Markup.Edit

/-!
Removing ARIA attributes that are not valid. Which ones these are is read off the document; they
are cut out of the text of their tags, and nothing else of the text changes. A gate refuses text
that still holds one.
-/
namespace AccessibleMarkup.Aria

open AccessibleMarkup.Markup
open AccessibleMarkup.Text

/-- The document that a text writes. -/
def readDocument (text : List Char) : Except Failure Document :=
  failWith .rejected (Document.read text)

def invalidAttributes (element : Element) : List Markup.Attribute :=
  element.attributes.filter fun known =>
    isAriaName known.name && !isValid known.name (some known.value)

def findInvalid (document : Document) : List (Node × Markup.Attribute) :=
  document.nodes.flatMap fun node =>
    (invalidAttributes node.element).map fun known => (node, known)

def namedAttributes (openTag : List Char) (names : List String) : List PlacedAttribute :=
  (attributesOf openTag).filter fun placed =>
    names.contains (String.ofList (lowercase placed.name))

def withoutAttributes (openTag : List Char) (names : List String) :
    Except Failure (List Char) :=
  match removeAttributes? openTag (namedAttributes openTag names) with
  | some kept => .ok kept
  | none => .error .outsideText

def removalLine (names : List String) (element : Element) : String :=
  "Removing " ++ ", ".intercalate names ++ " from <" ++ element.name ++ ">"

/-- The edit that cleans the tag of an element, if it needs one. -/
def cleanupEdit (buffer : Buffer) (element : Element) : Logged (Option Edit) := do
  let names := (invalidAttributes element).map (·.name)
  if names.isEmpty then return none
  let placed ← Logged.ofOutcome (failWith .ofLocationFault (locate buffer element))
  Logged.line (removalLine names element)
  let kept ← Logged.ofOutcome (withoutAttributes placed.source names)
  return some ⟨placed.start, placed.stop, kept⟩

/-- The text without the invalid ARIA attributes of its elements. -/
def clean (text : List Char) : Logged (List Char) := do
  let document ← Logged.ofOutcome (readDocument text)
  let edits ← document.elements.filterMapM (cleanupEdit (.ofText text))
  Logged.ofOutcome (failWith .malformed (splice text edits))

def invalidFailure (element : Element) (known : Markup.Attribute) : Failure :=
  .invalidAria known.name
    ("value " ++ inQuotes known.value ++ " on <" ++ element.name ++ "> is not valid")

/-- Succeeds on text whose elements carry no invalid ARIA attribute, and fails with the first
one otherwise. -/
def gate (text : List Char) : Except Failure Unit := do
  let document ← readDocument text
  match findInvalid document with
  | [] => .ok ()
  | (node, known) :: _ => .error (invalidFailure node.element known)

end AccessibleMarkup.Aria
