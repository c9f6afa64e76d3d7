import AccessibleMarkup.Proofs.Openings
import AccessibleMarkup.Proofs.Splicing
import AccessibleMarkup.Proofs.Stability

/-! Reading a text again in which opening tags were written anew. As long as every new tag is read
where it stands, the tokeniser goes over the new text step by step as it went over the old one. Only
the first pass does: where markup does not end, all of the text behind it matters. -/
namespace AccessibleMarkup.Markup

open AccessibleMarkup.Text

/-- The first pass takes these tokens off the front of a text and leaves `left`. -/
inductive Reads : Option (List Char) → List Char → List Token → Option (List Char) → List Char →
    Prop where
  | done (rawText : Option (List Char)) (text : List Char) : Reads rawText text [] rawText text
  | token {rawText next last : Option (List Char)} {c : Char} {content : Content}
      {more rest left : List Char} {tokens : List Token}
      (step : nextStep .first rawText c (more ++ rest) = .token content more next)
      (tail : Reads next rest tokens last left) :
      Reads rawText (c :: (more ++ rest)) (⟨content, c :: more⟩ :: tokens) last left

/-- The tokens of the first pass and what it leaves make up the text. -/
theorem Reads.join {rawText last : Option (List Char)} {text left : List Char}
    {tokens : List Token} (hReads : Reads rawText text tokens last left) :
    tokens.flatMap Token.source ++ left = text := by
  induction hReads with
  | done => rfl
  | token step tail ih => simp [ih]

/-- What the first pass reads is followed by a run over what it leaves. -/
theorem Reads.scans {rawText last : Option (List Char)} {text left dropped : List Char}
    {tokens behind : List Token} (hReads : Reads rawText text tokens last left)
    (hScans : Scans .first last left behind dropped) :
    Scans .first rawText text (tokens ++ behind) dropped := by
  induction hReads with
  | done => exact hScans
  | token step tail ih => exact .token step (ih hScans)

/-- A run begins with what the first pass reads. -/
theorem Reads.scans_left {rawText last : Option (List Char)} {text left dropped : List Char}
    {tokens all : List Token} (hReads : Reads rawText text tokens last left)
    (hScans : Scans .first rawText text all dropped) :
    ∃ behind, all = tokens ++ behind ∧ Scans .first last left behind dropped := by
  induction hReads generalizing all with
  | done => exact ⟨all, rfl, hScans⟩
  | @token rawText next last c content more rest left tokens step tail ih =>
      generalize hText : c :: (more ++ rest) = text at hScans
      cases hScans with
      | nil => cases hText
      | @token _ _ other _ found piece behind _ later step' tail' =>
          obtain ⟨rfl, hRest⟩ := List.cons.inj hText
          rw [← hRest, step] at step'
          cases step'
          have hBehind := List.append_cancel_left hRest
          subst hBehind
          obtain ⟨left, hLeft, hTail⟩ := ih tail'
          exact ⟨left, by rw [hLeft]; rfl, hTail⟩
      | lastToken step' tail' =>
          obtain ⟨rfl, hRest⟩ := List.cons.inj hText
          rw [← hRest, step] at step'
          cases step'
      | stop step' tail' =>
          obtain ⟨rfl, hRest⟩ := List.cons.inj hText
          rw [← hRest, step] at step'
          cases step'

/-- A token whose tag is written anew, and read as another tag. -/
def Token.rewrite (write : OpenTag → List Char) (change : OpenTag → OpenTag) (token : Token) :
    Token :=
  match token.content with
  | .openTag tag => ⟨.openTag (change tag), write tag⟩
  | _ => token

theorem Token.rewrite_openTag (write : OpenTag → List Char) (change : OpenTag → OpenTag)
    {token : Token} {tag : OpenTag} (hContent : token.content = .openTag tag) :
    token.rewrite write change = ⟨.openTag (change tag), write tag⟩ := by
  simp [rewrite, hContent]

theorem Token.rewrite_other (write : OpenTag → List Char) (change : OpenTag → OpenTag)
    {token : Token} (hOther : ∀ tag, token.content ≠ .openTag tag) :
    token.rewrite write change = token := by
  unfold rewrite
  split
  · rename_i tag hContent
    exact absurd hContent (hOther tag)
  · rfl

/-- The token of a tag was the token of a tag before. -/
theorem Token.exists_openTag_of_rewrite {write : OpenTag → List Char} {change : OpenTag → OpenTag}
    {token : Token} {changed : OpenTag}
    (hContent : (token.rewrite write change).content = .openTag changed) :
    ∃ tag, token.content = .openTag tag ∧ change tag = changed := by
  rcases token.content.openTag_or_other with ⟨tag, hTag⟩ | hOther
  · rw [rewrite_openTag write change hTag] at hContent
    exact ⟨tag, hTag, Content.openTag.inj hContent⟩
  · rw [rewrite_other write change hOther] at hContent
    exact absurd hContent (hOther changed)

/-- Tokens whose tags are written anew make up the text in which they are. -/
theorem flatMap_source_rewrite (write : OpenTag → List Char) (change : OpenTag → OpenTag)
    (tokens : List Token) :
    (tokens.map (Token.rewrite write change)).flatMap Token.source = rewriteTags write tokens := by
  induction tokens with
  | nil => rfl
  | cons token rest ih =>
      rw [List.map_cons, List.flatMap_cons, ih]
      rcases token.content.openTag_or_other with ⟨tag, hContent⟩ | hOther
      · rw [Token.rewrite_openTag write change hContent, rewriteTags_cons_openTag write hContent]
      · rw [Token.rewrite_other write change hOther, rewriteTags_cons_other write hOther]

/-- Every tag among the tokens is the text of its token and is read where it stands. -/
def TagsEnd (left : List Char) : List Token → Prop
  | [] => True
  | token :: rest =>
    (∀ tag, token.content = .openTag tag →
      token.source = tag.source ∧ tag.Ends (rest.flatMap Token.source ++ left)) ∧
      TagsEnd left rest

/-- The token of a tag that is read where it stands is the text of the tag. -/
theorem TagsEnd.source_of_openTag {left : List Char} {tokens : List Token}
    (hEnd : TagsEnd left tokens) :
    ∀ token ∈ tokens, ∀ tag, token.content = .openTag tag → token.source = tag.source := by
  induction tokens with
  | nil => simp
  | cons token rest ih =>
      intro other hMem tag hContent
      rcases List.mem_cons.1 hMem with rfl | hMem
      · exact (hEnd.1 tag hContent).1
      · exact ih hEnd.2 other hMem tag hContent

theorem tagsEnd_append {left : List Char} {front behind : List Token} :
    TagsEnd left (front ++ behind) ↔
      TagsEnd (behind.flatMap Token.source ++ left) front ∧ TagsEnd left behind := by
  induction front with
  | nil => simp [TagsEnd]
  | cons token rest ih => simp [TagsEnd, ih, and_assoc]

/-- The tags that were written anew are read where every one of them is read before what was written
behind it. -/
theorem tagsEnd_map_rewrite_cons {write : OpenTag → List Char} {change : OpenTag → OpenTag}
    {left : List Char} {token : Token} {rest : List Token} :
    TagsEnd left ((token :: rest).map (Token.rewrite write change)) ↔
      (∀ tag, token.content = .openTag tag →
        write tag = (change tag).source ∧ (change tag).Ends (rewriteTags write rest ++ left)) ∧
        TagsEnd left (rest.map (Token.rewrite write change)) := by
  rw [List.map_cons, TagsEnd, flatMap_source_rewrite]
  refine and_congr_left fun _ => ?_
  rcases token.content.openTag_or_other with ⟨tag, hContent⟩ | hOther
  · rw [Token.rewrite_openTag write change hContent]
    simp only [hContent, Content.openTag.injEq, forall_eq']
  · rw [Token.rewrite_other write change hOther]
    exact ⟨fun _ tag hContent => absurd hContent (hOther tag),
      fun _ tag hContent => absurd hContent (hOther tag)⟩

/-- What a step reads as a tag ends there. -/
theorem ends_of_nextStep {pass : Pass} {rawText next : Option (List Char)} {c : Char}
    {tag : OpenTag} {more rest : List Char}
    (hStep : nextStep pass rawText c (more ++ rest) = .token (.openTag tag) more next) :
    c :: more = tag.source ∧ tag.Ends rest := by
  obtain ⟨-, rfl, rfl, -, hRead⟩ := openTag_of_nextStep hStep
  exact ⟨rfl, (readOpenTag_eq_complete_iff.1 hRead).2⟩

theorem tagsEnd_scanEnd (left : List Char) (rawText : Option (List Char)) (text : List Char) :
    TagsEnd left (scanEnd [] rawText text).tokens := by
  unfold scanEnd
  split
  · exact ⟨fun tag hContent => by simp at hContent, trivial⟩
  · trivial

/-- Every tag of a run is read where it stands. -/
theorem Scans.tagsEnd {pass : Pass} {rawText : Option (List Char)} {text dropped : List Char}
    {tokens : List Token} (hScans : Scans pass rawText text tokens dropped) :
    TagsEnd dropped tokens := by
  induction hScans with
  | nil => trivial
  | token step tail ih =>
      refine ⟨fun tag hContent => ?_, ih⟩
      simp only at hContent
      subst hContent
      rw [tail.join]
      exact ends_of_nextStep step
  | lastToken step tail ih =>
      exact ⟨fun tag hContent => absurd hContent (not_openTag_of_lastToken step tag), ih⟩
  | stop step tail ih => exact ih
  | lastTokenEnd step =>
      exact ⟨fun tag hContent => absurd hContent (not_openTag_of_lastToken step tag),
        tagsEnd_scanEnd _ _ _⟩
  | stopEnd step => exact tagsEnd_scanEnd _ _ _

/-- The next step takes a tag that is read where it stands. -/
theorem nextStep_of_ends {tag : OpenTag} {behind : List Char} (hEnds : tag.Ends behind)
    (pass : Pass) :
    nextStep pass none '<' (tag.sourceTail ++ behind) =
      .token (.openTag tag) tag.sourceTail
        (if hasRawBody (lowercase tag.name) && !tag.selfClosed then some (lowercase tag.name)
        else none) := by
  have hRead : readOpenTag (tag.sourceTail ++ behind) = .complete tag behind :=
    readOpenTag_eq_complete_iff.2 ⟨rfl, hEnds⟩
  have hIsName := hEnds.name
  obtain ⟨c, name, hName⟩ : ∃ c name, tag.name = c :: name := by
    refine List.exists_cons_of_ne_nil fun hNil => ?_
    rw [hNil] at hIsName
    exact hIsName
  rw [hName] at hIsName
  have hTail : tag.sourceTail ++ behind =
      c :: (name ++ tag.gap ++ tag.attributeText ++ tag.ending ++ behind) := by
    simp [OpenTag.sourceTail, OpenTag.attributeText, hName]
  rw [hTail] at hRead ⊢
  rw [nextStep, if_pos rfl, markupStep_letter hIsName.1, openTagStep_eq, hRead]

theorem end_not_mem_of_hasRawBody {name : List Char} (hRaw : hasRawBody name = true) :
    '>' ∉ name := by
  simp only [hasRawBody, Bool.or_eq_true, decide_eq_true_eq] at hRaw
  rcases hRaw with rfl | rfl <;> decide

/-- Raw text ends at a name without the character that ends tags. -/
theorem end_not_mem_of_nextStep {pass : Pass} {rawText next : Option (List Char)} {c : Char}
    {content : Content} {more rest : List Char}
    (hStep : nextStep pass rawText c rest = .token content more next)
    (hRaw : ∀ name, rawText = some name → '>' ∉ name) : ∀ name, next = some name → '>' ∉ name :=
  forall_rawText_of_nextStep (fun _ => end_not_mem_of_hasRawBody) hStep hRaw

theorem mem_of_afterWord? {word text behind : List Char} {c : Char}
    (hWord : afterWord? word text = some behind) (hMem : c ∈ behind) : c ∈ text := by
  induction word generalizing text with
  | nil =>
      cases hWord
      exact hMem
  | cons letter word ih =>
      cases text with
      | nil => simp [afterWord?] at hWord
      | cons d text =>
          rw [afterWord?] at hWord
          split at hWord
          · exact List.mem_cons_of_mem d (ih hWord)
          · simp at hWord

/-- What looks like the end tag of an element holds a `>`. -/
theorem end_mem_of_looksLikeEndOf {name text : List Char}
    (hLooks : looksLikeEndOf name text = true) : '>' ∈ text := by
  unfold looksLikeEndOf at hLooks
  split at hLooks
  · rename_i rest
    split at hLooks
    · rename_i behind hWord
      obtain ⟨found, hFound⟩ := Option.isSome_iff_exists.1 hLooks
      have hEnd := blankThen_holdsNoQuote.holdsEnd _ _ hFound
      have hJoin := blankThen_suffix hFound
      have hBehind : '>' ∈ behind := by
        rw [← hJoin]
        exact List.mem_append_left _ hEnd
      have hBlank := splitBlank_append rest
      have hRest : '>' ∈ (splitBlank rest).2 := mem_of_afterWord? hWord hBehind
      have hWhole : '>' ∈ rest := by
        rw [← hBlank]
        exact List.mem_append_right _ hRest
      simp [hWhole]
    · simp at hLooks
  · simp at hLooks

/-- An end tag that ends raw text holds its `>`. -/
theorem rawTextStep_holdsEnd {name : List Char} {c : Char} {content : Content}
    {more rest : List Char} {next : Option (List Char)}
    (hLooks : looksLikeEndOf name (c :: rest) = true)
    (hStep : rawTextStep name c rest = .token content more next) : '>' ∈ more := by
  rw [rawTextStep.eq_def, if_pos hLooks] at hStep
  split at hStep
  · simp at hStep
  · split at hStep
    · simp at hStep
    · simp only at hStep
      split at hStep
      · split at hStep <;> cases hStep <;> simp
      · cases hStep
        simp

/-- Every tag of the first pass is read where it stands. -/
theorem Reads.tagsEnd {rawText last : Option (List Char)} {text left : List Char}
    {tokens : List Token} (hReads : Reads rawText text tokens last left) : TagsEnd left tokens := by
  induction hReads with
  | done => trivial
  | token step tail ih =>
      refine ⟨fun tag hContent => ?_, ih⟩
      simp only at hContent
      subst hContent
      rw [tail.join]
      exact ends_of_nextStep step

section
variable {write : OpenTag → List Char} {change : OpenTag → OpenTag}

/-- Tokens keep their first character when tags are written anew. -/
theorem Reads.head?_rewriteTags {rawText last : Option (List Char)} {text left : List Char}
    {tokens : List Token} (hReads : Reads rawText text tokens last left)
    (hOpens : ∀ tag, (write tag).head? = some '<') :
    (rewriteTags write tokens ++ left).head? = text.head? := by
  cases hReads with
  | done => rfl
  | @token rawText next last c content more rest left tokens step tail =>
      rcases content.openTag_or_other with ⟨tag, rfl⟩ | hOther
      · obtain ⟨hSource, -⟩ := ends_of_nextStep step
        have hC : c = '<' := (List.cons.inj hSource).1
        rw [rewriteTags_cons_openTag write rfl, List.append_assoc, List.head?_append, hOpens, hC]
        rfl
      · rw [rewriteTags_cons_other write hOther]
        rfl

/-- Without a `<` there is no tag to be written anew. -/
theorem Reads.rewriteTags_plain {rawText last : Option (List Char)} {text left : List Char}
    {tokens : List Token} (hReads : Reads rawText text tokens last left) (hPlain : '<' ∉ text) :
    rewriteTags write tokens ++ left = text := by
  induction hReads with
  | done => rfl
  | @token rawText next last c content more rest left tokens step tail ih =>
      have hOther : ∀ tag, content ≠ .openTag tag := by
        rintro tag rfl
        obtain ⟨hSource, -⟩ := ends_of_nextStep step
        have hC : c = '<' := (List.cons.inj hSource).1
        exact hPlain (by simp [hC])
      have hRest : '<' ∉ rest := fun hMem => hPlain (by simp [hMem])
      rw [rewriteTags_cons_other write hOther, List.append_assoc, ih hRest]
      simp

/-- An end tag that ends raw text stays whole. -/
theorem Reads.rewriteTags_rawText {name : List Char} {last : Option (List Char)}
    {text left : List Char} {tokens : List Token}
    (hReads : Reads (some name) text tokens last left) (hLooks : looksLikeEndOf name text = true) :
    ∃ front tail later, text = front ++ tail ∧ rewriteTags write tokens ++ left = front ++ later ∧
      '>' ∈ front := by
  cases hReads with
  | done => exact ⟨text, [], [], by simp, by simp [rewriteTags], end_mem_of_looksLikeEndOf hLooks⟩
  | @token _ next last c content more rest left tokens step tail =>
      have hOther := not_openTag_of_rawText step
      have hEnd : '>' ∈ more := rawTextStep_holdsEnd hLooks step
      exact ⟨c :: more, rest, rewriteTags write tokens ++ left, rfl,
        by rw [rewriteTags_cons_other write hOther, List.append_assoc], by simp [hEnd]⟩

/-- Where a tag was read, the new tag is read in its place and leads to the same text behind it. -/
theorem nextStep_rewritten (hName : ∀ tag, (change tag).name = tag.name)
    (hClosed : ∀ tag, (change tag).selfClosed = tag.selfClosed) {pass : Pass}
    {rawText next : Option (List Char)} {c : Char} {tag : OpenTag} {more rest behind : List Char}
    (hStep : nextStep pass rawText c (more ++ rest) = .token (.openTag tag) more next)
    (hEnds : (change tag).Ends behind) :
    nextStep pass rawText '<' ((change tag).sourceTail ++ behind) =
      .token (.openTag (change tag)) (change tag).sourceTail next := by
  obtain ⟨rfl, rfl, rfl, rfl, -⟩ := openTag_of_nextStep hStep
  rw [nextStep_of_ends hEnds pass, hName, hClosed]

/-- Where every new tag is read where it stands, the first pass reads the new text as it read the
old one. -/
theorem Reads.rewrite (hName : ∀ tag, (change tag).name = tag.name)
    (hClosed : ∀ tag, (change tag).selfClosed = tag.selfClosed)
    (hOpens : ∀ tag, (write tag).head? = some '<')
    {rawText last : Option (List Char)} {text left : List Char} {tokens : List Token}
    (hReads : Reads rawText text tokens last left)
    (hTags : TagsEnd left (tokens.map (Token.rewrite write change)))
    (hRaw : ∀ name, rawText = some name → '>' ∉ name) :
    Reads rawText (rewriteTags write tokens ++ left) (tokens.map (Token.rewrite write change))
      last left := by
  induction hReads with
  | done => exact .done _ _
  | @token rawText next last c content more rest left tokens step tail ih =>
      have hTail := ih hTags.2 (end_not_mem_of_nextStep step hRaw)
      rcases content.openTag_or_other with ⟨tag, rfl⟩ | hOther
      · obtain ⟨hSource, hEnds⟩ := (tagsEnd_map_rewrite_cons.1 hTags).1 tag rfl
        rw [List.map_cons, Token.rewrite_openTag write change rfl,
          rewriteTags_cons_openTag write rfl, List.append_assoc, hSource]
        exact .token (nextStep_rewritten hName hClosed step hEnds) hTail
      · rw [List.map_cons, Token.rewrite_other write change hOther,
          rewriteTags_cons_other write hOther, List.append_assoc, List.cons_append]
        refine .token ?_ hTail
        cases rawText with
        | none =>
            exact nextStep_append step hOther (tail.head?_rewriteTags hOpens)
              tail.rewriteTags_plain
        | some name =>
            refine rawTextStep_append (hRaw name rfl) step fun hNext hLooks => ?_
            subst hNext
            exact tail.rewriteTags_rawText hLooks

end

end AccessibleMarkup.Markup
