import AccessibleMarkup.Proofs.InputParts
import AccessibleMarkup.Proofs.LabelledDocuments

/-! Texts in which every rule labels what it is meant to label. The first pass reads all their tags,
they leave no double quote open, and what looks like the tag of an input is one. With labels in its
tags such a text is such a text again, so that one rule does not get in the way of the next. -/
namespace AccessibleMarkup

open AccessibleMarkup.Markup
open AccessibleMarkup.Text

section
variable {piece text other : List Char}

/-- Nothing was put in where a character of the piece is missing. -/
theorem Text.PutInto.eq_of_not_mem {c : Char} (hPut : PutInto piece text other) (hPiece : c ∈ piece)
    (hOther : c ∉ other) : other = text := by
  induction hPut with
  | same => rfl
  | copy tail ih => rw [ih fun hMem => hOther (List.mem_cons_of_mem _ hMem)]
  | put => exact absurd (List.mem_append_left _ hPiece) hOther

/-- A piece is closed in itself: it begins with a blank and something solid, and its equals sign
stands before a quoted value. -/
structure ClosedPiece (piece : List Char) : Prop where
  begins : ∃ c rest, piece = ' ' :: c :: rest ∧ isBlank c = false ∧ c ≠ '"'
  ends : '"' ∈ piece
  signs : ∀ front behind, piece = front ++ '=' :: behind → ∃ rest, behind = '"' :: rest ∧ '"' ∈ rest

/-- Such pieces do not stand in white space before a last quote. -/
theorem Text.PutInto.of_blank (hPut : PutInto piece text other) (hPiece : ClosedPiece piece)
    {blank rest : List Char} (hOther : other = blank ++ '"' :: rest)
    (hBlank : ∀ c ∈ blank, isBlank c = true) (hRest : '"' ∉ rest) :
    text = blank ++ '"' :: rest := by
  induction hPut generalizing blank with
  | same => exact hOther
  | @copy c text other tail ih =>
      cases blank with
      | nil =>
          obtain ⟨rfl, rfl⟩ := List.cons.inj hOther
          rw [tail.eq_of_not_mem hPiece.ends hRest]
          rfl
      | cons d blank =>
          obtain ⟨rfl, rfl⟩ := List.cons.inj hOther
          rw [ih rfl fun d hMem => hBlank d (List.mem_cons_of_mem _ hMem)]
          rfl
  | put tail ih =>
      exfalso
      obtain ⟨c, more, rfl, hSolid, hQuote⟩ := hPiece.begins
      rcases blank with - | ⟨d, - | ⟨e, blank⟩⟩
      · exact absurd (List.cons.inj hOther).1 (by decide)
      · exact hQuote (List.cons.inj (List.cons.inj hOther).2).1
      · have hC := hBlank e (by simp)
        rw [← (List.cons.inj (List.cons.inj hOther).2).1, hSolid] at hC
        simp at hC

/-- Pieces that are closed in themselves leave no double quote open. -/
theorem Text.PutInto.opensQuote (hPut : PutInto piece text other) (hPiece : ClosedPiece piece)
    (hOpens : OpensQuote '"' other) : OpensQuote '"' text := by
  induction hPut with
  | same => exact hOpens
  | @copy c text other tail ih =>
      obtain ⟨front, blank, rest, hText, hBlank, hRest⟩ := hOpens
      cases front with
      | nil =>
          obtain ⟨rfl, rfl⟩ := List.cons.inj hText
          rw [tail.of_blank hPiece rfl hBlank hRest]
          exact ⟨[], blank, rest, rfl, hBlank, hRest⟩
      | cons d front =>
          obtain ⟨rfl, rfl⟩ := List.cons.inj hText
          exact (ih ⟨front, blank, rest, rfl, hBlank, hRest⟩).append_left [c]
  | @put text other tail ih =>
      obtain ⟨front, blank, rest, hText, hBlank, hRest⟩ := hOpens
      rcases List.append_eq_append_iff.1 hText with ⟨left, -, hOther⟩ | ⟨left, hFront, hOther⟩
      · exact ih ⟨left, blank, rest, hOther, hBlank, hRest⟩
      · cases left with
        | nil => exact ih ⟨[], blank, rest, hOther.symm, hBlank, hRest⟩
        | cons c left =>
            exfalso
            obtain ⟨rfl, hBehind⟩ := List.cons.inj hOther
            obtain ⟨more, rfl, hMore⟩ := hPiece.signs front left hFront
            cases blank with
            | nil =>
                have hText : rest = more ++ other := (List.cons.inj hBehind).2
                rw [hText] at hRest
                exact hRest (List.mem_append_left _ hMore)
            | cons d blank =>
                have hD : d = '"' := (List.cons.inj hBehind).1
                have hBlankD := hBlank d (List.mem_cons_self ..)
                rw [hD] at hBlankD
                exact absurd hBlankD (by decide)

end

/-- Every label is closed in itself. -/
theorem Rule.closedPiece_label {rule : Rule} (hRule : rule ∈ all) : ClosedPiece rule.label where
  begins := by
    simp only [all, List.mem_cons, List.not_mem_nil, or_false] at hRule
    rcases hRule with rfl | rfl | rfl | rfl <;> exact ⟨'a', _, rfl, by decide, by decide⟩
  ends := by
    revert rule
    decide
  signs front behind hLabel := by
    have hAll : ∀ rule ∈ all, ∀ index < rule.label.length,
        (rule.label.drop index).head? = some '=' →
          (rule.label.drop (index + 1)).head? = some '"' ∧
            '"' ∈ rule.label.drop (index + 2) := by decide
    have hDrop (more : Nat) :
        rule.label.drop (front.length + more) = ('=' :: behind).drop more := by
      rw [hLabel, List.drop_length_add_append]
    obtain ⟨hHead, hMem⟩ := hAll rule hRule front.length (by simp [hLabel]) (by
      have hFront := hDrop 0
      rw [Nat.add_zero] at hFront
      rw [hFront]
      rfl)
    rw [hDrop] at hHead hMem
    obtain ⟨rest, hRest⟩ := List.head?_eq_some_iff.1 hHead
    obtain rfl : behind = '"' :: rest := hRest
    exact ⟨rest, rfl, hMem⟩

/-- A label neither opens nor ends a tag. -/
theorem Rule.mem_parts_changeTag {rule : Rule} (hRule : rule ∈ all) (tag : OpenTag) :
    ∀ part ∈ (rule.changeTag tag).parts, part ∈ tag.parts ∨ '<' ∉ part ∧ '>' ∉ part := by
  intro part hPart
  unfold changeTag at hPart
  split at hPart
  · simp only [OpenTag.parts, labelledTag, List.map_cons, body_labelAttribute, List.mem_cons]
      at hPart
    rcases hPart with rfl | rfl | hPart
    · exact .inl (List.mem_cons_self ..)
    · have hLabel : ∀ c ∈ rule.labelBody, c ∈ rule.label := fun c hMem => by
        rw [label_eq]
        exact List.mem_cons_of_mem _ hMem
      exact .inr ⟨fun hMem => open_not_mem_label hRule (hLabel _ hMem),
        fun hMem => end_not_mem_label hRule (hLabel _ hMem)⟩
    · exact .inl (List.mem_cons_of_mem _ hPart)
  · exact .inl hPart

/-- A text whose labels all go where they should. -/
structure Plain (text : List Char) : Prop where
  /-- The first pass reads all the tags. -/
  tags : ∃ front last left, Reads none text front last left ∧
    ∀ token ∈ (scan text).tokens.drop front.length, ∀ tag, token.content ≠ .openTag tag
  /-- No double quote is left open. -/
  closed : ¬ OpensQuote '"' text
  /-- What looks like the tag of an input is one. -/
  inputs : InputTagsWhole (scan text).dropped (scan text).tokens

namespace Plain

variable {text : List Char} (hPlain : Plain text)
include hPlain

/-- The first pass halts nowhere before a tag, so it halts as before when tags are written anew. -/
theorem haltsStay {document : Document} (hRead : Document.read text = .ok document)
    (write : OpenTag → List Char) :
    HaltsStay write (scan text).dropped none (scan text).tokens := by
  obtain ⟨front, last, left, hFront, hBehind⟩ := hPlain.tags
  obtain ⟨hScans, -⟩ := Document.scans_of_read hRead
  obtain ⟨behind, hTokens, hTail⟩ := hFront.scans_left hScans
  rw [hTokens, List.drop_left] at hBehind
  rw [hTokens]
  exact hFront.haltsStay hTail.join fun token hMem tag hContent =>
    absurd hContent (hBehind token hMem tag)

/-- With tags written anew and read so, the text is plain as before, as long as the new parts of the
tags neither open nor end a tag and no double quote is left open. -/
theorem rewritten {document : Document} (hRead : Document.read text = .ok document)
    {write : OpenTag → List Char} {change : OpenTag → OpenTag}
    (hName : ∀ tag, (change tag).name = tag.name)
    (hSelfClosed : ∀ tag, (change tag).selfClosed = tag.selfClosed)
    (hOpens : ∀ tag, (write tag).head? = some '<')
    (hParts : ∀ tag, ∀ part ∈ (change tag).parts, part ∈ tag.parts ∨ '<' ∉ part ∧ '>' ∉ part)
    (hScan : scan (rewriteTags write (scan text).tokens ++ (scan text).dropped) =
      ⟨(scan text).tokens.map (Token.rewrite write change), (scan text).dropped, none⟩)
    (hClosed : ¬ OpensQuote '"' (rewriteTags write (scan text).tokens ++ (scan text).dropped)) :
    Plain (rewriteTags write (scan text).tokens ++ (scan text).dropped) := by
  obtain ⟨hScans, -⟩ := Document.scans_of_read hRead
  have hAgain := (scans_of_scanOnto hScan).tagsEnd
  refine ⟨?_, hClosed, ?_⟩
  · obtain ⟨front, last, left, hFront, hBehind⟩ := hPlain.tags
    obtain ⟨behind, hTokens, hTail⟩ := hFront.scans_left hScans
    rw [hTokens, List.drop_left] at hBehind
    have hSame : behind.map (Token.rewrite write change) = behind := by
      refine (List.map_congr_left fun token hMem => ?_).trans (List.map_id behind)
      exact Token.rewrite_other _ _ (hBehind token hMem)
    have hText : rewriteTags write behind = behind.flatMap Token.source :=
      rewriteTags_unchanged fun token hMem tag hContent => absurd hContent (hBehind token hMem tag)
    rw [hTokens, List.map_append, hSame, tagsEnd_append, hTail.join] at hAgain
    refine ⟨front.map (Token.rewrite write change), last, left, ?_, ?_⟩
    · rw [hTokens, rewriteTags, List.flatMap_append, ← rewriteTags, ← rewriteTags, hText,
        List.append_assoc, hTail.join]
      exact hFront.rewrite hName hSelfClosed hOpens hAgain.1 (by simp)
    · rw [hScan, hTokens, List.map_append, hSame, List.drop_left]
      exact hBehind
  · rw [hScan]
    exact hPlain.inputs.map_rewrite hName hOpens hParts hScans.tagsEnd hAgain

section
variable {rule : Rule} (hRule : rule ∈ Rule.all) {document : Document}
  (hRead : Document.read text = .ok document)
include hRule hRead

/-- Every rule writes labels into the tags that it selects. -/
theorem outcome_apply : (rule.apply text).outcome =
    .ok (rewriteTags rule.labelTag (scan text).tokens ++ (scan text).dropped) := by
  have hFinders : ∀ rule ∈ Rule.all, rule.finder = .elements ∨ rule = Rule.inputs := by decide
  rcases hFinders rule hRule with hFinder | rfl
  · exact Rule.apply_of_read hFinder hRead
  · obtain ⟨hScans, -⟩ := Document.scans_of_read hRead
    have hInputs := hPlain.inputs.isInputTag hScans.tagsEnd []
    rw [hScans.join] at hInputs
    rw [Rule.apply_inputs_of_tags hRead hInputs]
    exact @Rule.apply_of_read Rule.inputElements rfl _ _ hRead

/-- The tags with labels are read as such. -/
theorem scan_labelled : scan (rewriteTags rule.labelTag (scan text).tokens ++ (scan text).dropped) =
    ⟨(scan text).tokens.map rule.labelToken, (scan text).dropped, none⟩ := by
  obtain ⟨hScans, -⟩ := Document.scans_of_read hRead
  refine (Rule.scan_labelled_iff hRule hRead).2 ⟨?_, ?_⟩
  · exact Rule.tagsRemain_of_closed hRule hScans.tagsEnd (hScans.join.symm ▸ hPlain.closed)
  · exact (hPlain.haltsStay hRead rule.labelTag).beginningsRemain (Rule.head?_labelTag rule)
      hScans.tagsEnd

/-- With labels in its tags, the text is plain as before. -/
theorem labelled :
    Plain (rewriteTags rule.labelTag (scan text).tokens ++ (scan text).dropped) := by
  obtain ⟨hScans, -⟩ := Document.scans_of_read hRead
  refine hPlain.rewritten hRead (Rule.name_changeTag rule) (Rule.selfClosed_changeTag rule)
    (Rule.head?_labelTag rule) (Rule.mem_parts_changeTag hRule) (hPlain.scan_labelled hRule hRead)
    fun hOpens => hPlain.closed ?_
  have hPut := @Rule.putInto_rewriteTags rule _ hScans.tagsEnd.source_of_openTag (scan text).dropped
  rw [hScans.join] at hPut
  exact hPut.opensQuote (Rule.closedPiece_label hRule) hOpens

end

end Plain

end AccessibleMarkup
