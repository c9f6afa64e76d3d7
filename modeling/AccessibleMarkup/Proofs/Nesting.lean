import AccessibleMarkup.Markup.Document.Printer
import AccessibleMarkup.Proofs.Retagging
import Mathlib.Data.List.TakeDrop

/-! The nesting of elements. In a document that was read every element closes, inside the elements
that opened before it. What is printed of an element ends where the element closes, so it does not
matter what stands behind the document that holds it. -/
namespace AccessibleMarkup.Markup

open AccessibleMarkup.Text

/-- The names of the open elements behind an event, innermost first, if the event may stand there:
only the innermost element may close. -/
def Event.namesBehind (names : List String) : Event → Option (List String)
  | .opened element => some (element.name :: names)
  | .closed name =>
    match names with
    | [] => none
    | innermost :: outer => if innermost = name then some outer else none
  | .string _ _ => some names

namespace Document

/-- Every element closes, inside the elements that opened before it. -/
def Nested (document : Document) : Prop :=
  document.events.foldlM Event.namesBehind [] = some []

instance (document : Document) : Decidable document.Nested :=
  inferInstanceAs (Decidable (_ = _))

def append (first second : Document) : Document :=
  ⟨first.events ++ second.events⟩

/-- Documents in which every element closes make one in which every element closes. -/
theorem Nested.append {first second : Document} (hFirst : first.Nested) (hSecond : second.Nested) :
    (first.append second).Nested := by
  rw [Nested, Document.append, List.foldlM_append, hFirst]
  exact hSecond

end Document

/-- Elements may close one after another, from the innermost on. -/
theorem foldlM_closed (inner outer : List String) :
    (inner.map Event.closed).foldlM Event.namesBehind (inner ++ outer) = some outer := by
  induction inner with
  | nil => rfl
  | cons innermost inner ih => simpa [Event.namesBehind] using ih

namespace Builder

def openNames (builder : Builder) : List String := builder.stack.map (·.name)

/-- The events so far leave the elements of the stack open, and no others. -/
def Nests (builder : Builder) : Prop :=
  builder.events.reverse.foldlM Event.namesBehind [] = some builder.openNames

section
variable {builder : Builder}

/-- One more event leaves open what it says. -/
theorem Nests.foldlM_cons (hNests : builder.Nests) (event : Event) :
    (event :: builder.events).reverse.foldlM Event.namesBehind [] =
      event.namesBehind builder.openNames := by
  rw [List.reverse_cons, List.foldlM_append, hNests]
  simp

theorem Nests.flush (hNests : builder.Nests) (kind : StringKind) : (builder.flush kind).Nests := by
  unfold Builder.flush
  split
  · exact hNests
  · exact hNests.foldlM_cons _

theorem Nests.addString (hNests : builder.Nests) (kind : StringKind) (text : List Char) :
    (builder.addString kind text).Nests :=
  @Nests.flush (builder.endText.collect text) (hNests.flush .text) kind

theorem Nests.closeInnermost (hNests : builder.Nests) : builder.closeInnermost.Nests := by
  unfold Builder.closeInnermost
  split
  · exact hNests
  · next innermost rest hStack =>
      refine (hNests.foldlM_cons _).trans ?_
      simp [openNames, hStack, Event.namesBehind]

/-- Closing an element of a name closes all that is open inside it first. -/
theorem Nests.closeNamed (hNests : builder.Nests) (name : String) :
    (builder.closeNamed name).Nests := by
  unfold Builder.closeNamed
  split
  · exact hNests
  · next inner found rest hSpan =>
      have hStack : inner ++ [found] ++ rest = builder.stack := by
        rw [List.span_eq_takeWhile_dropWhile, Prod.mk.injEq] at hSpan
        rw [List.append_assoc, List.singleton_append, ← hSpan.1, ← hSpan.2,
          List.takeWhile_append_dropWhile]
      have hClosed := foldlM_closed ((inner ++ [found]).map (·.name)) (rest.map (·.name))
      rw [List.map_map, ← List.map_append, hStack] at hClosed
      simp only [Nests, openNames, List.reverse_append, List.reverse_reverse, List.foldlM_append]
      rw [show builder.events.reverse.foldlM Event.namesBehind [] = some builder.openNames
        from hNests]
      exact hClosed

theorem Nests.openElement (hNests : builder.Nests) (element : Element) :
    (builder.openElement element).Nests :=
  hNests.foldlM_cons _

/-- An opening tag opens an element, and closes it at once if it has no content. -/
theorem Nests.openTag (hNests : builder.Nests) (tag : OpenTag) : (builder.openTag tag).Nests := by
  have hOpened := @Nests.openElement _ (hNests.flush .text)
    ⟨String.ofList (lowercase tag.name), tag.readAttributes, some builder.position⟩
  unfold Builder.openTag
  simp only
  split
  · exact hOpened.closeInnermost
  · split
    · exact hOpened.closeInnermost
    · exact hOpened

theorem Nests.endTag (hNests : builder.Nests) (name : String) : (builder.endTag name).Nests := by
  unfold Builder.endTag
  split
  · exact hNests
  · exact (hNests.flush .text).closeNamed name

/-- No token breaks the nesting. -/
theorem Nests.add (hNests : builder.Nests) (token : Token) : (builder.add token).Nests := by
  show (builder.addContent token).Nests
  unfold addContent
  split
  case h_4 => exact hNests.openTag _
  case h_5 => exact hNests.endTag _
  case h_9 =>
    split
    · exact hNests.addString ..
    · exact hNests.addString ..
  all_goals first
    | exact hNests
    | exact hNests.addString ..

theorem Nests.foldl_add (hNests : builder.Nests) (tokens : List Token) :
    (tokens.foldl Builder.add builder).Nests := by
  induction tokens generalizing builder with
  | nil => exact hNests
  | cons token tokens ih => exact ih (hNests.add token)

/-- What is still open closes at the end. -/
theorem Nests.finish (hNests : builder.Nests) : builder.finish.Nested := by
  have hEnded : builder.endText.Nests := hNests.flush .text
  have hClosed := foldlM_closed builder.endText.openNames []
  rw [List.append_nil, openNames, List.map_map] at hClosed
  simp only [Document.Nested, Builder.finish, List.reverse_append, List.reverse_reverse,
    List.foldlM_append]
  rw [show builder.endText.events.reverse.foldlM Event.namesBehind [] =
    some builder.endText.openNames from hEnded]
  exact hClosed

end

end Builder

/-- In a document that was read every element closes, inside the elements that opened before it. -/
theorem Document.nested_of_read {text : List Char} {document : Document}
    (hRead : Document.read text = .ok document) : document.Nested := by
  obtain ⟨-, -, rfl⟩ := Document.read_eq_ok_iff.1 hRead
  exact @Builder.Nests.finish _ (@Builder.Nests.foldl_add .start rfl _)

/-- A node is an opening in the document, with the events that follow it. -/
theorem exists_of_mem_nodesOnto {events : List Event} {node : Node}
    (hMem : node ∈ nodesOnto [] events) :
    ∃ front, events = front ++ .opened node.element :: node.following := by
  induction events with
  | nil => simp [nodesOnto] at hMem
  | cons event rest ih =>
      cases event with
      | opened element =>
          rw [nodesOnto, nodesOnto_eq, List.reverse_singleton, List.singleton_append,
            List.mem_cons] at hMem
          rcases hMem with rfl | hMem
          · exact ⟨[], rfl⟩
          · obtain ⟨front, rfl⟩ := ih hMem
            exact ⟨.opened element :: front, rfl⟩
      | closed name =>
          obtain ⟨front, rfl⟩ := ih hMem
          exact ⟨.closed name :: front, rfl⟩
      | string kind text =>
          obtain ⟨front, rfl⟩ := ih hMem
          exact ⟨.string kind text :: front, rfl⟩

/-- The node in a document that goes on behind its own. -/
def Node.extend (node : Node) (behind : List Event) : Node :=
  { node with following := node.following ++ behind }

/-- The nodes of events in a row are those of the first ones, which go on into the others, and then
those of the others. -/
theorem nodesOnto_append (events behind : List Event) :
    nodesOnto [] (events ++ behind) =
      (nodesOnto [] events).map (·.extend behind) ++ nodesOnto [] behind := by
  induction events with
  | nil => rfl
  | cons event rest ih =>
      cases event with
      | opened element =>
          rw [List.cons_append, nodesOnto, nodesOnto, nodesOnto_eq, nodesOnto_eq [_] rest, ih]
          simp [Node.extend]
      | closed name => exact ih
      | string kind text => exact ih

/-- The depth gets to zero among these events. -/
def Surfaces (depth : Nat) : List Event → Prop
  | [] => False
  | event :: rest =>
    event.depthBehind depth = 0 ∨ Surfaces (event.depthBehind depth) rest

/-- What is printed of an element ends where the element closes. -/
theorem printOnto_append {depth : Nat} {events : List Event} (hSurfaces : Surfaces depth events)
    (limit : Nat) (done : List Char) (emptyTag : Bool) (behind : List Event) :
    printOnto limit done depth emptyTag (events ++ behind) =
      printOnto limit done depth emptyTag events := by
  induction events generalizing depth done emptyTag with
  | nil => exact hSurfaces.elim
  | cons event rest ih =>
      have hPrint : printEvent event (rest ++ behind) = printEvent event rest := by
        cases event with
        | opened element =>
            cases rest with
            | nil => simp [Surfaces, Event.depthBehind] at hSurfaces
            | cons next rest => cases next <;> rfl
        | closed name => rfl
        | string kind text => rfl
      simp only [List.cons_append, printOnto, hPrint]
      generalize (if emptyTag then ([], false) else printEvent event rest) = head
      rcases hSurfaces with hClosed | hRest
      · simp [hClosed]
      · rw [ih hRest]

/-- Where all elements are closed at the end, the innermost ones close on the way. -/
theorem surfaces_of_foldlM {events : List Event} {inner outer : List String} (hInner : inner ≠ [])
    (hEvents : events.foldlM Event.namesBehind (inner ++ outer) = some []) :
    Surfaces inner.length events := by
  induction events generalizing inner with
  | nil =>
      have hNone : inner ++ outer = [] := Option.some.inj hEvents
      exact hInner (List.append_eq_nil_iff.1 hNone).1
  | cons event rest ih =>
      cases event with
      | opened element => exact .inr (@ih (element.name :: inner) (List.cons_ne_nil _ _) hEvents)
      | closed name =>
          obtain ⟨innermost, inner, rfl⟩ := List.exists_cons_of_ne_nil hInner
          rw [List.cons_append, List.foldlM_cons, Event.namesBehind] at hEvents
          split at hEvents
          · by_cases hLast : inner = []
            · exact .inl (by simp [Event.depthBehind, hLast])
            · exact .inr (ih hLast hEvents)
          · simp at hEvents
      | string kind text => exact .inr (ih hInner hEvents)

/-- An element of a document in which all elements close is described in the same way when other
events stand behind the document. -/
theorem Document.Nested.describe_extend {document : Document} (hNested : document.Nested)
    {node : Node} (hMem : node ∈ document.nodes) (behind : List Event) :
    (node.extend behind).describe = node.describe := by
  obtain ⟨front, hEvents⟩ := exists_of_mem_nodesOnto hMem
  rw [Document.Nested, hEvents, List.foldlM_append, Option.bind_eq_bind, Option.bind_eq_some_iff]
    at hNested
  obtain ⟨names, -, hBehind⟩ := hNested
  have hCloses : Surfaces 1 node.following :=
    @surfaces_of_foldlM _ [node.element.name] names (List.cons_ne_nil _ _) hBehind
  have hPrint : (node.extend behind).print Node.descriptionLimit =
      node.print Node.descriptionLimit :=
    @printOnto_append 0 (.opened node.element :: node.following) (.inr hCloses) ..
  rw [Node.describe, Node.describe, hPrint]

end AccessibleMarkup.Markup
