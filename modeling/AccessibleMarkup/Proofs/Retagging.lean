import AccessibleMarkup.Proofs.Rereading

/-! The document of tokens whose opening tags were written anew. Events, names and nesting come from
all the tokens, and attributes from the tags alone; so where the new tags keep their names and their
ends, the document changes in the attributes of its elements and nowhere else. Only the positions of
elements move along with the text. -/
namespace AccessibleMarkup.Markup

open AccessibleMarkup.Text

def Element.placeless (element : Element) : Element :=
  { element with position := none }

def Event.mapElement (change : Element → Element) : Event → Event
  | .opened element => .opened (change element)
  | .closed name => .closed name
  | .string kind text => .string kind text

def Document.mapElements (change : Element → Element) (document : Document) : Document :=
  ⟨document.events.map (Event.mapElement change)⟩

/-- The elements of a changed document are the changed elements. -/
@[simp] theorem Document.elements_mapElements (change : Element → Element) (document : Document) :
    (document.mapElements change).elements = document.elements.map change := by
  obtain ⟨events⟩ := document
  simp only [mapElements, elements_eq]
  induction events with
  | nil => rfl
  | cons event rest ih =>
      cases event with
      | opened element => simpa [Event.mapElement, Event.opened?] using ih
      | closed name => exact ih
      | string kind text => exact ih

def OpenTag.element (tag : OpenTag) (position : Option Position) : Element :=
  ⟨String.ofList (lowercase tag.name), tag.readAttributes, position⟩

/-- Changing tags comes to changing elements: tags keep their names and their ends, and values that
are new hold no character reference with too many digits. -/
structure Retags (changeTag : OpenTag → OpenTag) (change : Element → Element) : Prop where
  name : ∀ tag, (changeTag tag).name = tag.name
  selfClosed : ∀ tag, (changeTag tag).selfClosed = tag.selfClosed
  element : ∀ tag position,
    (changeTag tag).element none = (change (tag.element position)).placeless
  values : ∀ tag, ∀ written ∈ (changeTag tag).attributes,
    written.value?.bind overlongReference? = none ∨
      ∃ old ∈ tag.attributes, old.value? = written.value?

namespace Builder

/-- Two documents under construction are the same but for the changed elements and where these
stand. -/
structure Agrees (change : Element → Element) (old new : Builder) : Prop where
  stack : new.stack = old.stack
  pending : new.pending = old.pending
  unspent : new.unspent = old.unspent
  events : new.events.map (Event.mapElement Element.placeless) =
    old.events.map (Event.mapElement fun element => (change element).placeless)

namespace Agrees

theorem start (change : Element → Element) : Agrees change Builder.start Builder.start :=
  ⟨rfl, rfl, rfl, rfl⟩

variable {change : Element → Element} {old new : Builder} (hAgrees : Agrees change old new)
include hAgrees

theorem flush (kind : StringKind) : Agrees change (old.flush kind) (new.flush kind) := by
  obtain ⟨hStack, hPending, hUnspent, hEvents⟩ := hAgrees
  unfold Builder.flush
  rw [hPending, hStack]
  split
  · exact ⟨hStack, hPending, hUnspent, hEvents⟩
  · exact ⟨rfl, rfl, hUnspent, by simp [Event.mapElement, hEvents]⟩

theorem endText : Agrees change old.endText new.endText :=
  hAgrees.flush .text

theorem collect (piece : List Char) : Agrees change (old.collect piece) (new.collect piece) :=
  ⟨hAgrees.stack, congrArg (piece :: ·) hAgrees.pending, hAgrees.unspent, hAgrees.events⟩

theorem addString (kind : StringKind) (text : List Char) :
    Agrees change (old.addString kind text) (new.addString kind text) :=
  (hAgrees.endText.collect text).flush kind

theorem closeInnermost : Agrees change old.closeInnermost new.closeInnermost := by
  obtain ⟨hStack, hPending, hUnspent, hEvents⟩ := hAgrees
  unfold Builder.closeInnermost
  rw [hStack]
  cases old.stack with
  | nil => exact ⟨hStack, hPending, hUnspent, hEvents⟩
  | cons innermost rest => exact ⟨rfl, hPending, hUnspent, by simp [Event.mapElement, hEvents]⟩

/-- What closes hangs on names alone, which are the same. -/
theorem closeNamed (name : String) : Agrees change (old.closeNamed name) (new.closeNamed name) := by
  obtain ⟨hStack, hPending, hUnspent, hEvents⟩ := hAgrees
  unfold Builder.closeNamed
  rw [hStack]
  split
  · exact ⟨hStack, hPending, hUnspent, hEvents⟩
  · exact ⟨rfl, hPending, hUnspent, by simp [Event.mapElement, hEvents, Function.comp_def]⟩

theorem endTag (name : String) : Agrees change (old.endTag name) (new.endTag name) := by
  unfold Builder.endTag
  rw [hAgrees.unspent]
  split
  · exact ⟨hAgrees.stack, hAgrees.pending, rfl, hAgrees.events⟩
  · exact hAgrees.endText.closeNamed name

/-- An element and the changed one open in the same place if they have the same name. -/
theorem openElement {element other : Element} (hName : other.name = element.name)
    (hElement : other.placeless = (change element).placeless) :
    Agrees change (old.openElement element) (new.openElement other) := by
  obtain ⟨hStack, hPending, hUnspent, hEvents⟩ := hAgrees
  refine ⟨?_, hPending, hUnspent, ?_⟩
  · simp [Builder.openElement, hStack, hName]
  · simp [Builder.openElement, Event.mapElement, hElement, hEvents]

/-- A changed tag opens the changed element, and closes itself where the tag does. -/
theorem openTag {changeTag : OpenTag → OpenTag} (hRetags : Retags changeTag change)
    (tag : OpenTag) : Agrees change (old.openTag tag) (new.openTag (changeTag tag)) := by
  have hElement : ((changeTag tag).element (some new.position)).placeless =
      (change (tag.element (some old.position))).placeless :=
    hRetags.element tag (some old.position)
  have hOpened := hAgrees.endText.openElement
    (congrArg (fun name => String.ofList (lowercase name)) (hRetags.name tag)) hElement
  unfold Builder.openTag
  simp only
  rw [hRetags.selfClosed, hRetags.name]
  rw [OpenTag.element, OpenTag.element, hRetags.name] at hOpened
  split
  · exact hOpened.closeInnermost
  · split
    · obtain ⟨hStack, hPending, hUnspent, hEvents⟩ := hOpened.closeInnermost
      exact ⟨hStack, hPending, congrArg (_ :: ·) hUnspent, hEvents⟩
    · exact hOpened

/-- Only opening tags are written anew, so every other token adds the same to both. -/
theorem addContent {changeTag : OpenTag → OpenTag} (hRetags : Retags changeTag change)
    (write : OpenTag → List Char) (token : Token) :
    Agrees change (old.addContent token) (new.addContent (token.rewrite write changeTag)) := by
  obtain ⟨content, source⟩ := token
  cases content with
  | text => exact hAgrees.collect source
  | named name => exact hAgrees.collect _
  | numeric numeral => exact hAgrees.collect _
  | openTag tag => exact hAgrees.openTag hRetags tag
  | closeTag name => exact hAgrees.endTag _
  | comment text => exact hAgrees.addString .comment text
  | instruction text => exact hAgrees.addString .instruction text
  | doctype text => exact hAgrees.addString .doctype _
  | marked text =>
      simp only [Token.rewrite, Builder.addContent]
      split
      · exact hAgrees.addString .characterData _
      · exact hAgrees.addString .declaration text
  | ignored => exact hAgrees

theorem add {changeTag : OpenTag → OpenTag} (hRetags : Retags changeTag change)
    (write : OpenTag → List Char) (token : Token) :
    Agrees change (old.add token) (new.add (token.rewrite write changeTag)) := by
  obtain ⟨hStack, hPending, hUnspent, hEvents⟩ := hAgrees.addContent hRetags write token
  exact ⟨hStack, hPending, hUnspent, hEvents⟩

theorem finish : new.finish.mapElements Element.placeless =
    old.finish.mapElements fun element => (change element).placeless := by
  obtain ⟨hStack, -, -, hEvents⟩ := hAgrees.endText
  simp [Builder.finish, Document.mapElements, hStack, hEvents, Event.mapElement, Function.comp_def]

end Agrees

end Builder

section
variable {changeTag : OpenTag → OpenTag} {change : Element → Element}
  (hRetags : Retags changeTag change) (write : OpenTag → List Char)
include hRetags

/-- The document of tokens whose tags were written anew is that of the old tokens with its elements
changed. -/
theorem Document.ofTokens_rewrite (tokens : List Token) :
    (ofTokens (tokens.map (Token.rewrite write changeTag))).mapElements Element.placeless =
      (ofTokens tokens).mapElements fun element => (change element).placeless := by
  suffices hFold : ∀ old new, Builder.Agrees change old new →
      Builder.Agrees change (tokens.foldl Builder.add old)
        ((tokens.map (Token.rewrite write changeTag)).foldl Builder.add new) from
    (hFold _ _ (.start change)).finish
  induction tokens with
  | nil => exact fun _ _ hAgrees => hAgrees
  | cons token rest ih => exact fun _ _ hAgrees => ih _ _ (hAgrees.add hRetags write token)

/-- A changed tag is not at fault where the tag is not. -/
theorem Token.fault?_rewrite {token : Token} (hSound : token.fault? = none) :
    (token.rewrite write changeTag).fault? = none := by
  obtain ⟨content, source⟩ := token
  cases content with
  | openTag tag =>
      simp only [Token.fault?, List.findSome?_eq_none_iff, Option.map_eq_none_iff] at hSound
      simp only [Token.rewrite, Token.fault?, List.findSome?_eq_none_iff, Option.map_eq_none_iff]
      intro written hMem
      rcases hRetags.values tag written hMem with hNew | ⟨old, hOld, hValue⟩
      · exact hNew
      · rw [← hValue]
        exact hSound old hOld
  | _ => exact hSound

end

/-- A text can be read where nothing stops its reading and no token of it is at fault. -/
theorem Document.read_eq_ok_iff {text : List Char} {document : Document} :
    read text = .ok document ↔
      (∀ token ∈ (scan text).tokens, token.fault? = none) ∧ (scan text).rejection = none ∧
        document = ofTokens (scan text).tokens := by
  rw [← List.findSome?_eq_none_iff]
  simp only [read]
  cases (scan text).tokens.findSome? Token.fault? with
  | some fault => simp
  | none =>
      cases (scan text).rejection with
      | some fault => simp
      | none => simp [eq_comm]

/-- A text with the tokens of another one whose tags were written anew can be read as well, and
writes the document of the other one with its elements changed. -/
theorem Document.read_rewritten {changeTag : OpenTag → OpenTag} {change : Element → Element}
    (hRetags : Retags changeTag change) {write : OpenTag → List Char} {text other : List Char}
    {document : Document} (hRead : read text = .ok document) {dropped : List Char}
    (hScan : scan other = ⟨(scan text).tokens.map (Token.rewrite write changeTag), dropped, none⟩) :
    ∃ again, read other = .ok again ∧
      again.mapElements Element.placeless =
        document.mapElements fun element => (change element).placeless := by
  obtain ⟨hSound, -, rfl⟩ := read_eq_ok_iff.1 hRead
  refine ⟨_, read_eq_ok_iff.2 ⟨?_, by rw [hScan], rfl⟩, ?_⟩
  · rw [hScan]
    intro token hMem
    obtain ⟨old, hOld, rfl⟩ := List.mem_map.1 hMem
    exact Token.fault?_rewrite hRetags write (hSound old hOld)
  · rw [hScan]
    exact ofTokens_rewrite hRetags write _

end AccessibleMarkup.Markup
