import AccessibleMarkup.Markup.Position

/-!
Documents. A document is the sequence of its events in the order of the text: elements open and
close, and strings stand between. Every element that opens closes, and elements nest.
-/
namespace AccessibleMarkup.Markup

/-- An attribute of an element, with its name in lower case and its value decoded. -/
structure Attribute where
  name : String
  value : String
  deriving DecidableEq

/-- An element. One that was made and not read has no position. -/
structure Element where
  name : String
  attributes : List Attribute
  position : Option Position
  deriving DecidableEq

namespace Element

def value? (element : Element) (name : String) : Option String :=
  (element.attributes.find? fun known => known.name = name).map (·.value)

/-- The element carries an attribute, whatever its value. -/
def has (element : Element) (name : String) : Bool :=
  element.attributes.any fun known => known.name = name

end Element

inductive StringKind where
  /-- Running text. -/
  | text
  /-- Text directly in a script or a style sheet, which is printed as it is. -/
  | verbatim
  | comment
  | characterData
  | instruction
  | declaration
  | doctype
  deriving DecidableEq

/-- What happens in a document from one place to the next. -/
inductive Event where
  | opened (element : Element)
  | closed (name : String)
  | string (kind : StringKind) (text : List Char)
  deriving DecidableEq

/-- A document, as the sequence of its events. -/
structure Document where
  events : List Event
  deriving DecidableEq

/-- An element in its document: the element and the events behind its opening. -/
structure Node where
  element : Element
  following : List Event

/-- `Document.nodes` behind the nodes already found, last first. -/
def nodesOnto (found : List Node) : List Event → List Node
  | [] => found.reverse
  | .opened element :: rest => nodesOnto (⟨element, rest⟩ :: found) rest
  | _ :: rest => nodesOnto found rest

namespace Document

/-- The elements of a document, in the order in which they open, with what follows each. -/
def nodes (document : Document) : List Node :=
  nodesOnto [] document.events

/-- The elements of a document, in the order in which they open. -/
def elements (document : Document) : List Element :=
  document.events.filterMap fun event =>
    match event with
    | .opened element => some element
    | _ => none

end Document

/-- Nodes that were found before stand in front of those that are still to be found. -/
theorem nodesOnto_eq (found : List Node) (events : List Event) :
    nodesOnto found events = found.reverse ++ nodesOnto [] events := by
  induction events generalizing found with
  | nil => simp [nodesOnto]
  | cons event rest ih =>
      cases event with
      | opened element =>
          simp only [nodesOnto]
          rw [ih (⟨element, rest⟩ :: found), ih [⟨element, rest⟩]]
          simp
      | closed name => exact ih found
      | string kind text => exact ih found

/-- Nodes and elements are the same elements in the same order. -/
theorem Document.map_element_nodes (document : Document) :
    document.nodes.map Node.element = document.elements := by
  obtain ⟨events⟩ := document
  simp only [nodes, elements]
  induction events with
  | nil => rfl
  | cons event rest ih =>
      cases event with
      | opened element =>
          simp only [nodesOnto]
          rw [nodesOnto_eq]
          simpa using ih
      | closed name => exact ih
      | string kind text => exact ih

end AccessibleMarkup.Markup
