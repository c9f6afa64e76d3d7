import AccessibleMarkup.Proofs.Acceptance
import AccessibleMarkup.Proofs.LabelledTags
import AccessibleMarkup.Proofs.LineEndsInDocuments
import AccessibleMarkup.Proofs.RepeatedScans

/-! What the passes make of a text with unified line ends: what they make of the text, with unified
line ends. The labels and the blanks that the passes write hold no line ends, and what they write
behind a carriage return begins with the same character as before. -/
namespace AccessibleMarkup

open AccessibleMarkup.Markup
open AccessibleMarkup.Text

namespace Markup

/-- No line end of a text is divided between its tokens. -/
def LineEndsWithin (dropped : List Char) : List Token → Prop
  | [] => True
  | token :: rest =>
    unifyPiece (feedNext (rest.flatMap Token.source ++ dropped)) token.source =
      unifyLineEnds token.source ∧ LineEndsWithin dropped rest

theorem lineEndsWithin_scanEnd (rawText : Option (List Char)) (text : List Char) :
    LineEndsWithin (scanEnd [] rawText text).dropped (scanEnd [] rawText text).tokens := by
  cases rawText with
  | some name => trivial
  | none =>
      cases text with
      | nil => trivial
      | cons c rest => exact ⟨(unifyLineEnds_eq _).symm, trivial⟩

/-- No line end is divided by a run: a token that ends with a carriage return is one that no line
feed follows. -/
theorem Scans.lineEndsWithin {pass : Pass} {rawText : Option (List Char)}
    {text dropped : List Char} {tokens : List Token}
    (hScans : Scans pass rawText text tokens dropped) (hRaw : ∀ name ∈ rawText, IsOneLine name) :
    LineEndsWithin dropped tokens := by
  have hPiece {c d : Char} {more rest other : List Char}
      (hMore : unifyLineEnds (c :: more) = d :: other)
      (hText : unifyLineEnds (c :: (more ++ rest)) = d :: (other ++ unifyLineEnds rest)) :
      unifyPiece (feedNext rest) (c :: more) = unifyLineEnds (c :: more) := by
    rw [← List.cons_append, unifyLineEnds_append, ← List.cons_append, ← hMore] at hText
    exact List.append_cancel_right hText
  induction hScans with
  | nil => trivial
  | token step tail ih =>
      obtain ⟨d, other, hMore, hText, -⟩ := exists_token_unified hRaw step
      refine ⟨?_, ih (isOneLine_of_nextStep step hRaw)⟩
      rw [tail.join]
      exact hPiece hMore hText
  | lastToken step tail ih =>
      obtain ⟨d, other, hMore, hText, -⟩ := exists_lastToken_unified hRaw step
      refine ⟨?_, ih hRaw⟩
      rw [tail.join]
      exact hPiece hMore hText
  | stop step tail ih => exact ih hRaw
  | @lastTokenEnd rawText c content more rest step =>
      obtain ⟨d, other, hMore, hText, -⟩ := exists_lastToken_unified hRaw step
      refine ⟨?_, lineEndsWithin_scanEnd rawText rest⟩
      rw [join_scanEnd]
      exact hPiece hMore hText
  | stopEnd step => exact lineEndsWithin_scanEnd _ _

/-- A tag with unified line ends is written as the tag is, with unified line ends. -/
structure WritesUnified (write : OpenTag → List Char) (tag : OpenTag) : Prop where
  unify : write tag.unify = unifyLineEnds (write tag)
  ends : (write tag).getLast? = some '>'

/-- Writing tags anew and unifying line ends commute. -/
theorem unifyLineEnds_rewriteTags {write : OpenTag → List Char} {tokens : List Token}
    {dropped : List Char} (hEnd : TagsEnd dropped tokens)
    (hWithin : LineEndsWithin dropped tokens)
    (hOpens : ∀ tag, (write tag).head? = some '<')
    (hWrite : ∀ tag behind, tag.Ends behind → WritesUnified write tag) :
    unifyLineEnds (rewriteTags write tokens ++ dropped) =
      rewriteTags write (tokens.map Token.unify) ++ unifyLineEnds dropped := by
  induction tokens with
  | nil => rfl
  | cons token rest ih =>
      obtain ⟨hTag, hRest⟩ := hEnd
      obtain ⟨hHere, hLater⟩ := hWithin
      have hTail := ih hRest hLater
      rw [List.map_cons]
      rcases token.content.openTag_or_other with ⟨tag, hContent⟩ | hOther
      · obtain ⟨hUnify, hLast⟩ := hWrite tag _ (hTag tag hContent).2
        have hNew : token.unify.content = .openTag tag.unify := by
          rw [Token.unify, hContent]
          rfl
        rw [rewriteTags_cons_openTag write hContent, rewriteTags_cons_openTag write hNew,
          List.append_assoc, unifyLineEnds_append_of_getLast? (by rw [hLast]; decide), hTail,
          hUnify, List.append_assoc]
      · have hNew : ∀ tag, token.unify.content ≠ .openTag tag := by
          obtain ⟨content, source⟩ := token
          cases content with
          | openTag tag => exact absurd rfl (hOther tag)
          | _ => simp [Token.unify, Content.unify]
        have hHead := head?_rewriteTags hRest.source_of_openTag hOpens dropped
        rw [rewriteTags_cons_other write hOther, rewriteTags_cons_other write hNew,
          List.append_assoc, unifyLineEnds_append, hTail, feedNext, hHead]
        rw [feedNext] at hHere
        rw [hHere, List.append_assoc]
        rfl

/-- A tag with unified line ends is written as the tag is, with its line ends unified. -/
theorem sourceTail_unify {tag : OpenTag} {behind : List Char} (hEnds : tag.Ends behind) :
    tag.unify.sourceTail = unifyLineEnds tag.sourceTail :=
  sourceTail_unify_of_readOpenTag (readOpenTag_eq_complete_iff.2 ⟨rfl, hEnds⟩)

/-- All that stands behind the name of a tag. -/
theorem behindName_unify {tag : OpenTag} {behind : List Char} (hEnds : tag.Ends behind) :
    tag.unify.gap ++ (tag.unify.attributeText ++ tag.unify.ending) =
      unifyLineEnds (tag.gap ++ (tag.attributeText ++ tag.ending)) := by
  have hTail := sourceTail_unify hEnds
  rw [OpenTag.sourceTail_eq_append, OpenTag.sourceTail_eq_append,
    unifyLineEnds_append_of_oneLine (isOneLine_of_isTagName hEnds.name)] at hTail
  exact List.append_cancel_left hTail

theorem trimEnd_append_of_allBlank {text blank : List Char} (hText : trimEnd text = text)
    (hBlank : allBlank blank = true) : trimEnd (text ++ blank) = text := by
  have hNil : trimEnd blank = [] := by
    rw [trimEnd, List.reverse_eq_nil_iff, List.dropWhile_eq_nil_iff]
    exact fun c hMem => List.all_eq_true.1 hBlank c (List.mem_reverse.1 hMem)
  rw [trimEnd_append (.inl hText), hNil, List.append_nil]

theorem getLast?_trimEnd_ne_return (text : List Char) : (trimEnd text).getLast? ≠ some '\r' :=
  fun hLast => absurd (not_isBlank_getLast?_trimEnd hLast) (by decide)

/-- Cutting white space at the end and unifying line ends can be done in either order. -/
theorem trimEnd_unifyLineEnds (text : List Char) :
    trimEnd (unifyLineEnds text) = unifyLineEnds (trimEnd text) := by
  obtain ⟨blank, hText, hBlank⟩ := trimEnd_append_blank text
  have hKept : trimEnd (unifyLineEnds (trimEnd text)) = unifyLineEnds (trimEnd text) := by
    refine trimEnd_eq_self fun c hMem => ?_
    rw [getLast?_unifyLineEnds] at hMem
    obtain ⟨d, hD, rfl⟩ := Option.map_eq_some_iff.1 hMem
    have hSolid := not_isBlank_getLast?_trimEnd hD
    have hReturn : d ≠ '\r' := by
      rintro rfl
      cases hSolid
    rwa [asFeed_of_ne hReturn]
  conv_lhs => rw [hText, unifyLineEnds_append_of_getLast? (getLast?_trimEnd_ne_return text)]
  refine trimEnd_append_of_allBlank hKept ?_
  rw [allBlank_unifyLineEnds]
  exact List.all_eq_true.2 hBlank

/-- A cut is kept apart from what follows it in the same way. -/
theorem keptApart_unifyLineEnds (text : List Char) :
    keptApart (unifyLineEnds text) = unifyLineEnds (keptApart text) := by
  cases text using unifyLineEnds_cases with
  | nil => rfl
  | turned rest left hLeft =>
      have hKept : keptApart ('\r' :: rest) = '\r' :: rest := rfl
      rw [hKept, hLeft]
      rfl
  | kept c rest hC =>
      rw [unifyLineEnds_cons hC]
      simp only [keptApart]
      split
      · rw [unifyLineEnds_cons hC]
      · rw [unifyLineEnds_cons (by decide), unifyLineEnds_cons hC]

/-- What is left of a tag begins with no line feed where it begins with a solid character. -/
theorem feedNext_cutFrom {cut : WrittenAttribute → Bool} {c : Char} (hC : isBlank c = false)
    (ending rest : List Char) (attributes : List WrittenAttribute) :
    feedNext (cutFrom cut ending (c :: rest) attributes) = false := by
  have hFeed : c ≠ '\n' := by
    rintro rfl
    cases hC
  have hSolid : trimEnd [c] = [c] :=
    trimEnd_append_solid (List.cons_ne_nil c []) (by simpa using hC) []
  have hTrim : trimEnd (c :: rest) = c :: trimEnd rest := @trimEnd_append [c] rest (.inl hSolid)
  cases attributes with
  | nil => simp [cutFrom, feedNext, hFeed]
  | cons written attributes =>
      rw [cutFrom]
      split
      · simp [hTrim, feedNext, hFeed]
      · simp [feedNext, hFeed]

/-- What is left of a tag ends as the tag does. -/
theorem getLast?_cutFrom {cut : WrittenAttribute → Bool} {ending : List Char} {c : Char}
    (hEnding : ending.getLast? = some c) (before : List Char)
    (attributes : List WrittenAttribute) :
    (cutFrom cut ending before attributes).getLast? = some c := by
  induction attributes generalizing before with
  | nil =>
      rw [cutFrom, List.getLast?_append, hEnding]
      rfl
  | cons written attributes ih =>
      rw [cutFrom]
      split
      · rcases keptApart_eq (cutFrom cut ending written.gap attributes) with hKept | hKept
        · rw [hKept, List.getLast?_append, ih]
          rfl
        · rw [hKept, List.getLast?_append, List.getLast?_cons, ih]
          rfl
      · rw [List.getLast?_append, ih]
        rfl

/-- Cutting attributes out and unifying line ends commute. -/
theorem cutFrom_unify {cut : List Char → Bool} {ending : List Char}
    (hEnding : IsOneLine ending) {attributes : List WrittenAttribute}
    (hSources : ∀ written ∈ attributes, written.unify.source = unifyLineEnds written.source)
    (hNames : ∀ written ∈ attributes, IsAttributeName written.name) (before : List Char) :
    cutFrom (fun written => cut written.name) ending (unifyLineEnds before)
        (attributes.map WrittenAttribute.unify) =
      unifyLineEnds (cutFrom (fun written => cut written.name) ending before attributes) := by
  induction attributes generalizing before with
  | nil =>
      rw [List.map_nil, cutFrom, cutFrom, unifyLineEnds_append_of_feed hEnding.feedNext_eq,
        hEnding.unifyLineEnds_eq]
  | cons written attributes ih =>
      have hLater (before : List Char) :=
        ih (fun other hMem => hSources other (List.mem_cons_of_mem _ hMem))
          (fun other hMem => hNames other (List.mem_cons_of_mem _ hMem)) before
      rw [List.map_cons, cutFrom, cutFrom]
      simp only [show written.unify.name = written.name from rfl]
      split
      · rw [show written.unify.gap = unifyLineEnds written.gap from rfl, hLater,
          keptApart_unifyLineEnds, trimEnd_unifyLineEnds,
          unifyLineEnds_append_of_getLast? (getLast?_trimEnd_ne_return before)]
      · obtain ⟨c, rest, hSource, hSolid⟩ :
            ∃ c rest, written.source = c :: rest ∧ isBlank c = false := by
          have hName := hNames written (List.mem_cons_self ..)
          cases hCons : written.name with
          | nil => exact absurd hCons hName.ne_nil
          | cons c name =>
              have hSolid := not_isBlank_of_mem_name hName (hCons ▸ List.mem_cons_self ..)
              refine ⟨c, name ++ (written.assignment.map Assignment.source).getD [] ++ written.gap,
                ?_, hSolid⟩
              rw [WrittenAttribute.source, WrittenAttribute.body, hCons]
              rfl
        rw [hSources written (List.mem_cons_self ..), hLater]
        conv_rhs => rw [unifyLineEnds_append_of_feed (by
          rw [hSource]
          exact feedNext_cutFrom hSolid _ _ _)]

end Markup

theorem Rule.isOneLine_label {rule : Rule} (hRule : rule ∈ all) : IsOneLine rule.label := by
  revert rule
  decide

theorem Rule.writesUnified_labelTag {rule : Rule} (hRule : rule ∈ all) {tag : OpenTag}
    {behind : List Char} (hEnds : tag.Ends behind) : WritesUnified rule.labelTag tag := by
  constructor
  · unfold labelTag
    rw [selectsTag_unify]
    split
    · have hFront : IsOneLine ('<' :: tag.name ++ rule.label) :=
        isOneLine_append.2 ⟨isOneLine_cons.2 ⟨by decide, by decide,
          isOneLine_of_isTagName hEnds.name⟩, isOneLine_label hRule⟩
      rw [labelText, labelText, behindName_unify hEnds, unifyLineEnds_append_of_oneLine hFront]
      rfl
    · rw [OpenTag.source, OpenTag.source, sourceTail_unify hEnds, unifyLineEnds_cons (by decide)]
  · have hLast := tag.getLast?_ending
    unfold labelTag
    split
    · simp only [labelText, ← List.append_assoc]
      rw [List.getLast?_append, hLast]
      rfl
    · simp [OpenTag.source, List.getLast?_cons, OpenTag.getLast?_sourceTail]

/-- The cleanup writes a tag with unified line ends as it writes the tag, with unified line ends. -/
theorem Aria.writesUnified_cleanTag {tag : OpenTag} {behind : List Char}
    (hEnds : tag.Ends behind) : WritesUnified cleanTag tag := by
  constructor
  · have hFront : IsOneLine ('<' :: tag.name) :=
      isOneLine_cons.2 ⟨by decide, by decide, isOneLine_of_isTagName hEnds.name⟩
    have hEnding : IsOneLine tag.ending := by
      unfold OpenTag.ending
      split <;> decide
    have hCut := @cutFrom_unify (cuts tag) _ hEnding _
      (source_unify_of_attributesEnd hEnds.attributes) hEnds.attributes.names
      ('<' :: tag.name ++ tag.gap)
    rw [unifyLineEnds_append_of_oneLine hFront] at hCut
    rw [cleanTag, cleanTag, OpenTag.cutText, OpenTag.cutText, cuts_unify]
    exact hCut
  · exact getLast?_cutFrom tag.getLast?_ending _ _

/-- A rule that looks for elements and comes to a text has read the one it was given. -/
theorem Rule.exists_read_of_apply {rule : Rule} (hFinder : rule.finder = .elements)
    {text labelled : List Char} (hApply : (rule.apply text).outcome = .ok labelled) :
    ∃ document, Document.read text = .ok document := by
  cases hRead : Document.read text with
  | error fault =>
      have hEdits : rule.edits text = .error (.rejected fault) := by
        simp only [Rule.edits, hFinder, elementEdits, Aria.readDocument, hRead]
        rfl
      rw [outcome_apply_of_error hEdits] at hApply
      cases hApply
  | ok document => exact ⟨document, rfl⟩

/-- A rule that looks for elements labels the same ones. -/
theorem Rule.apply_unify_of_elements {rule : Rule} (hRule : rule ∈ all)
    (hFinder : rule.finder = .elements) {text labelled : List Char}
    (hApply : (rule.apply text).outcome = .ok labelled) :
    (rule.apply (unifyLineEnds text)).outcome = .ok (unifyLineEnds labelled) := by
  obtain ⟨document, hRead⟩ := exists_read_of_apply hFinder hApply
  obtain ⟨⟨again, hAgain⟩, hScan⟩ := Document.exists_read_unifyLineEnds hRead
  obtain ⟨hScans, -⟩ := Document.scans_of_read hRead
  rw [apply_of_read hFinder hRead, Except.ok.injEq] at hApply
  rw [apply_of_read hFinder hAgain, hScan, ← hApply, unifyLineEnds_rewriteTags hScans.tagsEnd
    (hScans.lineEndsWithin (by simp)) (head?_labelTag rule)
    fun tag behind => writesUnified_labelTag hRule]

/-- The cleanup cuts the same attributes. -/
theorem Aria.clean_unify {text cleaned : List Char} (hClean : (clean text).outcome = .ok cleaned) :
    (clean (unifyLineEnds text)).outcome = .ok (unifyLineEnds cleaned) := by
  obtain ⟨document, hRead⟩ := exists_read_of_clean hClean
  obtain ⟨⟨again, hAgain⟩, hScan⟩ := Document.exists_read_unifyLineEnds hRead
  obtain ⟨hScans, -⟩ := Document.scans_of_read hRead
  rw [clean_of_read hRead, Except.ok.injEq] at hClean
  rw [clean_of_read hAgain, hScan, ← hClean, unifyLineEnds_rewriteTags hScans.tagsEnd
    (hScans.lineEndsWithin (by simp)) head?_cleanTag fun tag behind => writesUnified_cleanTag]

/-- The gate lets the same texts through. -/
theorem Aria.gate_unify {text : List Char} (hGate : gate text = .ok ()) :
    gate (unifyLineEnds text) = .ok () := by
  obtain ⟨document, hRead⟩ := exists_read_of_gate hGate
  obtain ⟨⟨again, hAgain⟩, hScan⟩ := Document.exists_read_unifyLineEnds hRead
  rw [gate_eq_ok_iff hRead] at hGate
  rw [gate_eq_ok_iff hAgain, hScan]
  exact tagsValid_map_unify hGate

end AccessibleMarkup
