import AccessibleMarkup.Enhancement
import AccessibleMarkup.Proofs.Cutting
import AccessibleMarkup.Proofs.Location

/-! What the passes of the library do to a text that can be read. Each of them finds the tags that
it changes where the tokeniser read them, so it goes through and writes these tags anew. -/
namespace AccessibleMarkup

open AccessibleMarkup.Markup
open AccessibleMarkup.Text

/-- What is in lower case already stands in front of what is still to be. -/
theorem Text.lowercaseOnto_eq (done : List Char) (afterCased : Bool) (text : List Char) :
    lowercaseOnto done afterCased text = done.reverse ++ lowercaseOnto [] afterCased text := by
  induction text generalizing done afterCased with
  | nil => simp [lowercaseOnto]
  | cons c rest ih =>
      rw [lowercaseOnto, lowercaseOnto, ih, ih ((lowerInContext afterCased c rest).reverse ++ [])]
      simp

/-- A quote has no case. -/
theorem Text.lowercase_quote_cons {c : Char} (hQuote : isQuote c = true) (rest : List Char) :
    ∃ lower, lowercase (c :: rest) = c :: lower := by
  have hLower : lowerInContext false c rest = [c] := by
    simp only [isQuote, Bool.or_eq_true, decide_eq_true_eq] at hQuote
    rcases hQuote with rfl | rfl <;> rfl
  refine ⟨lowercaseOnto [] (if isPassedOver c then false else isCased c) rest, ?_⟩
  rw [lowercase, lowercaseOnto, lowercaseOnto_eq, hLower]
  rfl

@[simp] theorem ok_bind {α β ε : Type} (value : α) (next : α → Except ε β) :
    (Except.ok value >>= next) = next value := rfl

/-- Work in two steps goes through where both do. -/
theorem bind_eq_ok_iff {α β ε : Type} {work : Except ε α} {next : α → Except ε β} {out : β} :
    (work >>= next) = .ok out ↔ ∃ value, work = .ok value ∧ next value = .ok out := by
  cases work <;> simp [bind, Except.bind]

theorem failWith_eq_ok_iff {α ε : Type} {cause : ε → Failure} {work : Except ε α} {out : α} :
    failWith cause work = .ok out ↔ work = .ok out := by
  cases work <;> simp [failWith]

theorem eq_ok_of_toOption {α ε : Type} {work : Except ε α} {value : α}
    (hSome : work.toOption = some value) : work = .ok value := by
  cases work with
  | error fault => cases hSome
  | ok found =>
      cases hSome
      rfl

@[simp] theorem failWith_ok {α ε : Type} (cause : ε → Failure) (value : α) :
    failWith cause (.ok value) = .ok value := rfl

/-- The outcome of work on every item of a list, where each goes through. -/
theorem Logged.outcome_filterMapM_map {α β γ : Type} (key : α → β)
    (work : β → Logged (Option γ)) (value : α → Option γ) {list : List α}
    (hEach : ∀ item ∈ list, (work (key item)).outcome = .ok (value item)) :
    ((list.map key).filterMapM work).outcome = .ok (list.filterMap value) := by
  suffices hLoop : ∀ done, (List.filterMapM.loop work (list.map key) done).outcome =
      .ok (done.reverse ++ list.filterMap value) from hLoop []
  induction list with
  | nil =>
      intro done
      simp [List.filterMapM.loop]
  | cons item rest ih =>
      intro done
      have hRest := ih fun other hMem => hEach other (List.mem_cons_of_mem _ hMem)
      simp only [List.map_cons, List.filterMapM.loop, Logged.outcome_bind,
        hEach item (List.mem_cons_self ..)]
      cases hValue : value item with
      | none => simpa [hValue] using hRest done
      | some found => simpa [hValue] using hRest (found :: done)

/-- Work that succeeds on each item succeeds on all of them. -/
theorem mapM_map_eq_ok {α β γ ε : Type} (key : α → β) (work : β → Except ε γ) (value : α → γ)
    {list : List α} (hEach : ∀ item ∈ list, work (key item) = .ok (value item)) :
    (list.map key).mapM work = .ok (list.map value) := by
  induction list with
  | nil => rfl
  | cons item rest ih =>
      have hRest := ih fun other hMem => hEach other (List.mem_cons_of_mem _ hMem)
      rw [List.map_cons, List.mapM_cons, hEach item (List.mem_cons_self ..)]
      simp [hRest, pure, Except.pure]

/-- The tags of a text that can be read, in its tokens, and the text itself. -/
theorem Markup.readable_of_read {text : List Char} {document : Document}
    (hRead : Document.read text = .ok document) :
    (∀ token ∈ (scan text).tokens, ∀ tag, token.content = .openTag tag →
        token.source = tag.source) ∧
      (∀ opening ∈ openings [] (scan text).tokens, opening.StandsIn text) ∧
      document.elements = (openings [] (scan text).tokens).map Opening.element ∧
      (scan text).tokens.flatMap Token.source ++ (scan text).dropped = text := by
  obtain ⟨hScans, rfl⟩ := Document.scans_of_read hRead
  exact ⟨hScans.source_of_openTag, hScans.openings_standIn [],
    Document.elements_ofTokens _, hScans.join⟩

namespace Aria

/-- The name of an ARIA attribute does not begin with a quote. -/
theorem isQuote_of_isAriaName {name : List Char}
    (hAria : isAriaName (String.ofList (lowercase name)) = true) :
    ∀ c ∈ name.head?, isQuote c = false := by
  intro c hHead
  cases hQuote : isQuote c with
  | false => rfl
  | true =>
      obtain ⟨rest, rfl⟩ := List.head?_eq_some_iff.1 hHead
      obtain ⟨lower, hLower⟩ := lowercase_quote_cons hQuote rest
      have hFirst : c = 'a' := by
        simp only [isAriaName, hLower, String.toList_ofList, List.isPrefixOf_iff_prefix] at hAria
        obtain ⟨tail, hTail⟩ := hAria
        exact (List.cons.inj hTail).1.symm
      rw [hFirst] at hQuote
      revert hQuote
      decide

def invalidNames (tag : OpenTag) : List String :=
  (tag.readAttributes.filter fun known =>
    isAriaName known.name && !isValid known.name (some known.value)).map (·.name)

theorem invalidAttributes_element (opening : Opening) :
    (invalidAttributes opening.element).map (·.name) = invalidNames opening.tag := rfl

def cuts (tag : OpenTag) (name : List Char) : Bool :=
  (invalidNames tag).contains (String.ofList (lowercase name))

def cleanTag (tag : OpenTag) : List Char :=
  tag.cutText (cuts tag)

/-- Nothing but ARIA attributes is cut. -/
theorem isAriaName_of_cuts {tag : OpenTag} {name : List Char} (hCuts : cuts tag name = true) :
    isAriaName (String.ofList (lowercase name)) = true := by
  simp only [cuts, List.contains_iff_mem, invalidNames, List.mem_map, List.mem_filter,
    Bool.and_eq_true] at hCuts
  obtain ⟨known, ⟨-, hAria, -⟩, hName⟩ := hCuts
  rwa [hName] at hAria

/-- A tag without invalid attributes stays as it is written. -/
theorem cleanTag_eq_source {tag : OpenTag} (hNone : invalidNames tag = []) :
    cleanTag tag = tag.source := by
  have hCuts : ∀ written ∈ tag.attributes, cuts tag written.name = false := by
    intro written hMem
    simp [cuts, hNone]
  rw [cleanTag, OpenTag.cutText, cutFrom_eq_append hCuts]
  simp [OpenTag.source, OpenTag.sourceTail]

/-- Cutting the invalid attributes out of a tag goes through. -/
theorem withoutAttributes_source {tag : OpenTag} {behind : List Char} (hEnds : tag.Ends behind) :
    withoutAttributes tag.source (invalidNames tag) = .ok (cleanTag tag) := by
  have hCut := removeAttributes?_source hEnds (cuts tag)
    fun name hName => isQuote_of_isAriaName (isAriaName_of_cuts hName)
  have hNamed : removeAttributes? tag.source (namedAttributes tag.source (invalidNames tag)) =
      some (cleanTag tag) := hCut
  rw [withoutAttributes, hNamed]

/-- What the cleanup writes for a tag, if it changes the tag. -/
def cleaned? (tag : OpenTag) : Option (List Char) :=
  if (invalidNames tag).isEmpty then none else some (cleanTag tag)

theorem getD_cleaned? (tag : OpenTag) : (cleaned? tag).getD tag.source = cleanTag tag := by
  unfold cleaned?
  split
  · rename_i hNone
    exact (cleanTag_eq_source (List.isEmpty_iff.1 hNone)).symm
  · rfl

/-- The edit of an element is the edit of the tag that opened it. -/
theorem cleanupEdit_element {text : List Char} {opening : Opening}
    (hStands : opening.StandsIn text) :
    (cleanupEdit (Buffer.ofText text) opening.element).outcome =
      .ok (opening.edit? cleaned?) := by
  have hLocate := locate_opening hStands
  obtain ⟨behind, -, hRead⟩ := hStands
  have hWithout := withoutAttributes_source (readOpenTag_eq_complete_iff.1 hRead).2
  unfold cleanupEdit
  rw [invalidAttributes_element]
  by_cases hNone : (invalidNames opening.tag).isEmpty = true
  · simp [hNone, Opening.edit?, cleaned?]
  · have hPlaced : withoutAttributes opening.placed.source (invalidNames opening.tag) =
        .ok (cleanTag opening.tag) := hWithout
    simp [hNone, Opening.edit?, cleaned?, hLocate, hPlaced]

/-- The cleanup of a text that can be read goes through and writes its tags anew. -/
theorem clean_of_read {text : List Char} {document : Document}
    (hRead : Document.read text = .ok document) :
    (clean text).outcome =
      .ok (rewriteTags cleanTag (scan text).tokens ++ (scan text).dropped) := by
  obtain ⟨hSource, hStand, hElements, hJoin⟩ := readable_of_read hRead
  have hEdits := Logged.outcome_filterMapM_map Opening.element (cleanupEdit (.ofText text))
    (Opening.edit? cleaned?) fun opening hMem => cleanupEdit_element (hStand opening hMem)
  have hSplice := splice_edits hSource cleaned? (scan text).dropped
  rw [hJoin] at hSplice
  simp [clean, readDocument, hRead, hElements, hEdits, hSplice, getD_cleaned?]

end Aria

namespace Rule

def selectsTag (rule : Rule) (tag : OpenTag) : Bool :=
  String.ofList (lowercase tag.name) = rule.tag &&
    !tag.readAttributes.any fun known => known.name = rule.attributeName

/-- A rule selects the tags of its name that lack its attribute. -/
theorem selectsTag_iff {rule : Rule} {tag : OpenTag} :
    rule.selectsTag tag = true ↔ String.ofList (lowercase tag.name) = rule.tag ∧
      tag.readAttributes.any (fun known => known.name = rule.attributeName) = false := by
  rw [selectsTag, Bool.and_eq_true, decide_eq_true_eq, Bool.not_eq_true']

theorem selects_element (rule : Rule) (opening : Opening) :
    rule.selects opening.element = rule.selectsTag opening.tag := rfl

def labelText (rule : Rule) (tag : OpenTag) : List Char :=
  '<' :: tag.name ++ rule.label ++ (tag.gap ++ (tag.attributeText ++ tag.ending))

/-- What the rule writes for a tag, if it changes the tag. -/
def labelled? (rule : Rule) (tag : OpenTag) : Option (List Char) :=
  if rule.selectsTag tag then some (rule.labelText tag) else none

def labelTag (rule : Rule) (tag : OpenTag) : List Char :=
  if rule.selectsTag tag then rule.labelText tag else tag.source

theorem getD_labelled? (rule : Rule) (tag : OpenTag) :
    (rule.labelled? tag).getD tag.source = rule.labelTag tag := by
  unfold labelled? labelTag
  split <;> rfl

/-- A tag that was read can be labelled. -/
theorem insertInto_source (rule : Rule) {tag : OpenTag} {behind : List Char}
    (hEnds : tag.Ends behind) : rule.insertInto tag.source = .ok (rule.labelText tag) := by
  have hStart := tagStart_source hEnds
  rw [insertInto, hStart]
  simp only [tag.source_eq_append, List.drop_left, labelText]

/-- The tag of an element is found where it stands, and the label goes in behind its name. -/
theorem labelEdit_placed (rule : Rule) {text : List Char} {opening : Opening}
    (hStands : opening.StandsIn text) :
    (do
      let placed ← failWith .ofLocationFault (locate (Buffer.ofText text) opening.element)
      labelEdit rule placed) =
      .ok ⟨opening.placed.start, opening.placed.stop, rule.labelText opening.tag⟩ := by
  have hLocate := locate_opening hStands
  obtain ⟨behind, -, hRead⟩ := hStands
  have hInsert : rule.insertInto opening.placed.source = .ok (rule.labelText opening.tag) :=
    insertInto_source rule (readOpenTag_eq_complete_iff.1 hRead).2
  simp [hLocate, labelEdit, hInsert, pure, Except.pure]

/-- A rule that looks for elements writes the tags anew that it selects. -/
theorem elementEdits_of_read (rule : Rule) {text : List Char} {document : Document}
    (hRead : Document.read text = .ok document) :
    elementEdits rule text =
      .ok ((openings [] (scan text).tokens).filterMap (Opening.edit? rule.labelled?)) := by
  obtain ⟨-, hStand, hElements, -⟩ := readable_of_read hRead
  let selected := (openings [] (scan text).tokens).filter fun opening =>
    rule.selectsTag opening.tag
  have hFilter : document.elements.filter rule.selects = selected.map Opening.element := by
    rw [hElements, List.filter_map]
    rfl
  have hEach : ∀ opening ∈ selected, _ := fun opening hMem =>
    labelEdit_placed rule (hStand opening (List.mem_filter.1 hMem).1)
  have hEdits := mapM_map_eq_ok Opening.element
    (fun element => do
      let placed ← failWith .ofLocationFault (locate (Buffer.ofText text) element)
      labelEdit rule placed)
    (fun opening => ⟨opening.placed.start, opening.placed.stop, rule.labelText opening.tag⟩) hEach
  have hFilterMap : (openings [] (scan text).tokens).filterMap (Opening.edit? rule.labelled?) =
      selected.map fun opening =>
        ⟨opening.placed.start, opening.placed.stop, rule.labelText opening.tag⟩ := by
    rw [← List.filterMap_eq_map, List.filterMap_filter]
    congr
    funext opening
    simp only [Opening.edit?, labelled?]
    split <;> simp_all
  rw [elementEdits, Aria.readDocument, hRead, hFilterMap]
  simpa [hFilter] using hEdits

/-- A rule that looks for elements goes through on a text that can be read. -/
theorem apply_of_read {rule : Rule} (hFinder : rule.finder = .elements) {text : List Char}
    {document : Document} (hRead : Document.read text = .ok document) :
    (rule.apply text).outcome =
      .ok (rewriteTags rule.labelTag (scan text).tokens ++ (scan text).dropped) := by
  obtain ⟨hSource, -, -, hJoin⟩ := readable_of_read hRead
  have hSplice := splice_edits hSource rule.labelled? (scan text).dropped
  rw [hJoin] at hSplice
  have hEdits := rule.elementEdits_of_read hRead
  have hFound : rule.edits text = elementEdits rule text := by
    simp only [edits, hFinder]
  simp only [apply, hFound, hEdits, Logged.outcome_bind, Logged.outcome_ofOutcome, ok_bind]
  split <;> simp [hSplice, getD_labelled?]

end Rule

section
variable {config : Config} {text : List Char}

theorem enhance_of_too_large (hSize : maxSize < Utf8.byteLength text) :
    enhance config text = .error (.tooLarge (Utf8.byteLength text) maxSize) := by
  have hCheck : checkSize text = .error (.tooLarge (Utf8.byteLength text) maxSize) := if_pos hSize
  simp only [enhance, enhanceLogged, Logged.outcome_bind, Logged.outcome_ofOutcome, hCheck]
  rfl

/-- What the enhancement comes to: the labels, the cleanup, and the gate. -/
theorem enhance_of_size (hSize : Utf8.byteLength text ≤ maxSize) :
    enhance config text =
      (addLabels config.rules text).outcome >>= fun labelled =>
        (Aria.clean labelled).outcome >>= fun cleaned =>
          Aria.gate cleaned >>= fun _ => .ok cleaned := by
  have hCheck : checkSize text = .ok (Utf8.byteLength text) := if_neg (by omega)
  simp only [enhance, enhanceLogged, Logged.outcome_bind, Logged.outcome_ofOutcome, hCheck,
    Logged.outcome_line, Logged.outcome_pure, ok_bind]

/-- The enhancement returns what all of its steps come to: a text that is not too large is labelled
and cleaned, and the gate accepts what is left. -/
theorem enhance_eq_ok_iff {out : List Char} :
    enhance config text = .ok out ↔
      Utf8.byteLength text ≤ maxSize ∧ ∃ labelled,
        (addLabels config.rules text).outcome = .ok labelled ∧
          (Aria.clean labelled).outcome = .ok out ∧ Aria.gate out = .ok () := by
  rcases Nat.lt_or_ge maxSize (Utf8.byteLength text) with hLarge | hSize
  · rw [enhance_of_too_large hLarge]
    exact iff_of_false (by simp) fun hSize => absurd hSize.1 (by omega)
  · simp only [enhance_of_size hSize, bind_eq_ok_iff, Except.ok.injEq, hSize, true_and]
    constructor
    · rintro ⟨labelled, hAdd, cleaned, hClean, ⟨⟩, hGate, rfl⟩
      exact ⟨labelled, hAdd, hClean, hGate⟩
    · rintro ⟨labelled, hAdd, hClean, hGate⟩
      exact ⟨labelled, hAdd, out, hClean, (), hGate, rfl⟩

end

end AccessibleMarkup
