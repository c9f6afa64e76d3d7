import AccessibleMarkup.Markup.Document.Builder
import AccessibleMarkup.Markup.Location
import AccessibleMarkup.Proofs.Scanning

/-! Where the elements of a document come from. Every opening tag that the tokeniser reads becomes
one element, in the same order and at the position that reading the text before it leads to; no
other token makes an element. -/
namespace AccessibleMarkup.Markup

open AccessibleMarkup.Text

theorem Content.openTag_or_other (content : Content) :
    (∃ tag, content = .openTag tag) ∨ ∀ tag, content ≠ .openTag tag := by
  cases content with
  | openTag tag => exact .inl ⟨tag, rfl⟩
  | _ => exact .inr (by simp)

/-- An opening tag that the tokeniser read, and all the text before it. -/
structure Opening where
  before : List Char
  tag : OpenTag

/-- The opening tags among tokens that follow the text `before`. -/
def openings (before : List Char) : List Token → List Opening
  | [] => []
  | token :: rest =>
    match token.content with
    | .openTag tag => ⟨before, tag⟩ :: openings (before ++ token.source) rest
    | _ => openings (before ++ token.source) rest

namespace Opening

def placed (opening : Opening) : PlacedTag :=
  ⟨opening.before.length, opening.tag.source⟩

def element (opening : Opening) : Element :=
  { name := String.ofList (lowercase opening.tag.name)
    attributes := opening.tag.readAttributes
    position := some (Position.start.advance opening.before) }

end Opening

/-- A tag opens where the text before it ends. -/
theorem openings_cons_openTag (before : List Char) {token : Token} {tag : OpenTag}
    (rest : List Token) (hContent : token.content = .openTag tag) :
    openings before (token :: rest) =
      ⟨before, tag⟩ :: openings (before ++ token.source) rest := by
  simp only [openings, hContent]

@[simp] theorem openings_nil (before : List Char) : openings before [] = [] := rfl

/-- Other tokens only move the tags behind them. -/
theorem openings_cons_other (before : List Char) {token : Token} (rest : List Token)
    (hOther : ∀ tag, token.content ≠ .openTag tag) :
    openings before (token :: rest) = openings (before ++ token.source) rest := by
  rw [openings]
  split
  · rename_i tag hContent
    exact absurd hContent (hOther tag)
  · rfl

theorem openings_eq_nil {tokens : List Token}
    (hOther : ∀ token ∈ tokens, ∀ tag, token.content ≠ .openTag tag) (before : List Char) :
    openings before tokens = [] := by
  induction tokens generalizing before with
  | nil => rfl
  | cons token rest ih =>
      obtain ⟨hFirst, hRest⟩ := List.forall_mem_cons.1 hOther
      rw [openings_cons_other before rest hFirst]
      exact ih hRest _

/-- An opening tag stands in the text where the tokeniser says, and is read there. -/
def Opening.StandsIn (text : List Char) (opening : Opening) : Prop :=
  ∃ behind, text = opening.before ++ opening.tag.source ++ behind ∧
    readOpenTag (opening.tag.sourceTail ++ behind) = .complete opening.tag behind

/-- Every opening tag of a run stands in the text where the tokeniser says. -/
theorem Scans.openings_standIn {pass : Pass} {rawText : Option (List Char)}
    {text dropped : List Char} {tokens : List Token}
    (scans : Scans pass rawText text tokens dropped) (before : List Char) :
    ∀ opening ∈ openings before tokens, opening.StandsIn (before ++ text) := by
  induction scans generalizing before with
  | nil => simp
  | @token pass rawText next c content more rest dropped tokens step tail ih =>
      have hTail := ih (before ++ c :: more)
      simp only [List.append_assoc, List.cons_append] at hTail
      rcases content.openTag_or_other with ⟨tag, rfl⟩ | hOther
      · obtain ⟨-, rfl, rfl, -, hRead⟩ := openTag_of_nextStep step
        rw [openings_cons_openTag _ _ rfl]
        exact List.forall_mem_cons.2 ⟨⟨rest, by simp [OpenTag.source], hRead⟩, hTail⟩
      · rw [openings_cons_other _ _ hOther]
        exact hTail
  | @lastToken rawText c content more rest dropped tokens step tail ih =>
      have hTail := ih (before ++ c :: more)
      simp only [List.append_assoc, List.cons_append] at hTail
      rw [openings_cons_other _ _ (not_openTag_of_lastToken step)]
      exact hTail
  | stop step tail ih => exact ih before
  | lastTokenEnd step =>
      rw [openings_cons_other _ _ (not_openTag_of_lastToken step),
        openings_eq_nil fun _ => not_openTag_of_mem_scanEnd]
      simp
  | stopEnd step =>
      rw [openings_eq_nil fun _ => not_openTag_of_mem_scanEnd]
      simp

/-- One tag ends before the next one begins. -/
theorem pairwise_openings {tokens : List Token}
    (hSource : ∀ token ∈ tokens, ∀ tag, token.content = .openTag tag → token.source = tag.source)
    (before : List Char) :
    (∀ opening ∈ openings before tokens, before <+: opening.before) ∧
      (openings before tokens).Pairwise fun one other =>
        one.before ++ one.tag.source <+: other.before := by
  induction tokens generalizing before with
  | nil => simp [openings]
  | cons token rest ih =>
      obtain ⟨hBehind, hPairwise⟩ :=
        ih (fun other hMem => hSource other (List.mem_cons_of_mem _ hMem)) (before ++ token.source)
      have hLater : ∀ opening ∈ openings (before ++ token.source) rest,
          before <+: opening.before :=
        fun opening hMem => (List.prefix_append _ _).trans (hBehind opening hMem)
      rcases token.content.openTag_or_other with ⟨tag, hContent⟩ | hOther
      · have hTag := hSource token (List.mem_cons_self ..) tag hContent
        rw [openings_cons_openTag before rest hContent]
        refine ⟨?_, List.pairwise_cons.2 ⟨?_, hPairwise⟩⟩
        · intro opening hMem
          rcases List.mem_cons.1 hMem with rfl | hMem
          · exact List.prefix_refl _
          · exact hLater opening hMem
        · intro opening hMem
          rw [← hTag]
          exact hBehind opening hMem
      · rw [openings_cons_other before rest hOther]
        exact ⟨hLater, hPairwise⟩

/-- The places of tags are in order, and no two of them overlap. -/
theorem pairwise_placed_openings {tokens : List Token}
    (hSource : ∀ token ∈ tokens, ∀ tag, token.content = .openTag tag → token.source = tag.source)
    (before : List Char) :
    (openings before tokens).Pairwise fun one other =>
      one.placed.start < other.placed.start ∧ one.placed.stop ≤ other.placed.start := by
  refine (pairwise_openings hSource before).2.imp fun hPrefix => ?_
  have hLength := hPrefix.length_le
  simp only [List.length_append, OpenTag.source, List.length_cons] at hLength
  simp only [Opening.placed, PlacedTag.stop, OpenTag.source, List.length_cons]
  omega

/-- The token of an opening tag is the text of the tag. -/
theorem Scans.source_of_openTag {pass : Pass} {rawText : Option (List Char)}
    {text dropped : List Char} {tokens : List Token}
    (scans : Scans pass rawText text tokens dropped) :
    ∀ token ∈ tokens, ∀ tag, token.content = .openTag tag → token.source = tag.source := by
  induction scans with
  | nil => simp
  | token step tail ih =>
      refine List.forall_mem_cons.2 ⟨?_, ih⟩
      rintro tag rfl
      obtain ⟨-, rfl, rfl, -⟩ := openTag_of_nextStep step
      rfl
  | lastToken step tail ih =>
      exact List.forall_mem_cons.2
        ⟨fun tag hContent => absurd hContent (not_openTag_of_lastToken step tag), ih⟩
  | stop step tail ih => exact ih
  | lastTokenEnd step =>
      exact List.forall_mem_cons.2
        ⟨fun tag hContent => absurd hContent (not_openTag_of_lastToken step tag),
          fun _ hMem tag hContent => absurd hContent (not_openTag_of_mem_scanEnd hMem tag)⟩
  | stopEnd step =>
      exact fun _ hMem tag hContent => absurd hContent (not_openTag_of_mem_scanEnd hMem tag)

/-- The element that an event opens. -/
def Event.opened? : Event → Option Element
  | .opened element => some element
  | _ => none

theorem Document.elements_eq (document : Document) :
    document.elements = document.events.filterMap Event.opened? := rfl

namespace Builder

/-- The elements that were opened so far. -/
def elements (builder : Builder) : List Element :=
  builder.events.reverse.filterMap Event.opened?

@[simp] theorem elements_flush (builder : Builder) (kind : StringKind) :
    (builder.flush kind).elements = builder.elements := by
  unfold flush
  split
  · rfl
  · simp [elements, Event.opened?]

@[simp] theorem elements_endText (builder : Builder) :
    builder.endText.elements = builder.elements :=
  elements_flush builder .text

@[simp] theorem elements_collect (builder : Builder) (piece : List Char) :
    (builder.collect piece).elements = builder.elements := rfl

@[simp] theorem elements_addString (builder : Builder) (kind : StringKind) (text : List Char) :
    (builder.addString kind text).elements = builder.elements := by
  simp [addString]

@[simp] theorem elements_closeInnermost (builder : Builder) :
    builder.closeInnermost.elements = builder.elements := by
  unfold closeInnermost
  split
  · rfl
  · simp [elements, Event.opened?]

theorem filterMap_closed (stack : List OpenElement) :
    (stack.map fun element => Event.closed element.name).filterMap Event.opened? = [] := by
  simp [Event.opened?, Function.comp_def]

/-- End tags open no element. -/
@[simp] theorem elements_closeNamed (builder : Builder) (name : String) :
    (builder.closeNamed name).elements = builder.elements := by
  unfold closeNamed
  split
  · rfl
  · simp only [elements, List.reverse_append, List.reverse_reverse, List.filterMap_append,
      filterMap_closed, List.append_nil]

@[simp] theorem elements_endTag (builder : Builder) (name : String) :
    (builder.endTag name).elements = builder.elements := by
  unfold endTag
  split
  · rfl
  · simp

theorem elements_openElement (builder : Builder) (element : Element) :
    (builder.openElement element).elements = builder.elements ++ [element] := by
  simp [openElement, elements, Event.opened?]

/-- An opening tag opens one element, at the place where it stands. -/
theorem elements_openTag (builder : Builder) (tag : OpenTag) :
    (builder.openTag tag).elements =
      builder.elements ++ [⟨String.ofList (lowercase tag.name), tag.readAttributes,
        some builder.position⟩] := by
  have hOpened := elements_openElement builder.endText
    ⟨String.ofList (lowercase tag.name), tag.readAttributes, some builder.position⟩
  rw [elements_endText] at hOpened
  unfold openTag
  simp only
  split
  · rw [elements_closeInnermost, hOpened]
  · split
    · exact (elements_closeInnermost _).trans hOpened
    · exact hOpened

/-- Only an opening tag adds an element. -/
theorem elements_addContent (builder : Builder) {token : Token}
    (hOther : ∀ tag, token.content ≠ .openTag tag) :
    (builder.addContent token).elements = builder.elements := by
  unfold addContent
  split
  case h_4 tag hContent => exact absurd hContent (hOther tag)
  case h_9 => split <;> exact elements_addString ..
  all_goals simp only [elements_collect, elements_endTag, elements_addString]

@[simp] theorem elements_finish (builder : Builder) :
    builder.finish.elements = builder.elements := by
  rw [Document.elements_eq, ← elements_endText builder]
  simp only [finish, elements, List.reverse_append, List.reverse_reverse, List.filterMap_append,
    filterMap_closed, List.append_nil]

/-- Adding tokens opens one element for each opening tag among them, in their order. -/
theorem elements_foldl_add (tokens : List Token) (builder : Builder) (before : List Char)
    (hPosition : builder.position = Position.start.advance before) :
    (tokens.foldl add builder).elements =
      builder.elements ++ (openings before tokens).map Opening.element := by
  induction tokens generalizing builder before with
  | nil => simp
  | cons token rest ih =>
      have hNext : (builder.add token).position =
          Position.start.advance (before ++ token.source) := by
        simp [add, hPosition]
      rw [List.foldl_cons, ih (builder.add token) (before ++ token.source) hNext]
      rcases token.content.openTag_or_other with ⟨tag, hContent⟩ | hOther
      · have hAdd : (builder.add token).elements = (builder.openTag tag).elements := by
          simp [add, addContent, hContent, elements]
        rw [hAdd, elements_openTag, openings_cons_openTag before rest hContent, hPosition]
        simp [Opening.element]
      · have hAdd : (builder.add token).elements = builder.elements :=
          elements_addContent builder hOther
        rw [hAdd, openings_cons_other before rest hOther]

end Builder

/-- The elements of a document are what its opening tags open. -/
theorem Document.elements_ofTokens (tokens : List Token) :
    (Document.ofTokens tokens).elements = (openings [] tokens).map Opening.element := by
  rw [ofTokens, Builder.elements_finish,
    Builder.elements_foldl_add tokens Builder.start [] rfl]
  rfl

/-- A document that was read comes from a run over the whole text. -/
theorem Document.scans_of_read {text : List Char} {document : Document}
    (hRead : Document.read text = .ok document) :
    Scans .first none text (scan text).tokens (scan text).dropped ∧
      document = Document.ofTokens (scan text).tokens := by
  unfold Document.read at hRead
  simp only at hRead
  split at hRead
  · simp at hRead
  · split at hRead
    · simp at hRead
    · rename_i hRejection
      cases hRead
      refine ⟨scans_of_scanOnto ?_, rfl⟩
      rw [← hRejection]
      rfl

end AccessibleMarkup.Markup
