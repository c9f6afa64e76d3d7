import AccessibleMarkup.Proofs.Halts
import AccessibleMarkup.Proofs.Retagging

/-! Reading a text again in which opening tags were written anew, to its very end. The new text has
the new tokens exactly where every new tag is read where it stands and the first pass still halts
wherever it halted before. -/
namespace AccessibleMarkup.Markup

open AccessibleMarkup.Text

/-- The element whose body goes on behind a token, for raw text. -/
def Token.rawTextBehind (rawText : Option (List Char)) (token : Token) : Option (List Char) :=
  match token.content with
  | .openTag tag =>
    if hasRawBody (lowercase tag.name) && !tag.selfClosed then some (lowercase tag.name) else none
  | .text => rawText
  | _ => none

theorem rawTextBehind_of_rawTextStep {name more rest : List Char} {c : Char} {content : Content}
    {next : Option (List Char)} (hStep : rawTextStep name c rest = .token content more next) :
    (⟨content, c :: more⟩ : Token).rawTextBehind (some name) = next := by
  unfold rawTextStep at hStep
  split at hStep
  · split at hStep
    · simp at hStep
    · split at hStep
      · simp at hStep
      · simp only at hStep
        split at hStep
        · split at hStep <;> cases hStep <;> rfl
        · cases hStep
          rfl
  · split at hStep
    · simp at hStep
    · cases hStep
      rfl

/-- A token tells by itself what raw text goes on behind it. -/
theorem rawTextBehind_of_nextStep {pass : Pass} {rawText next : Option (List Char)} {c : Char}
    {content : Content} {more rest : List Char}
    (hStep : nextStep pass rawText c rest = .token content more next) :
    (⟨content, c :: more⟩ : Token).rawTextBehind rawText = next := by
  cases rawText with
  | some name => exact rawTextBehind_of_rawTextStep hStep
  | none =>
      have hOpens := nextStep_opensAt pass none c rest
      rw [hStep] at hOpens
      cases content with
      | openTag tag =>
          obtain ⟨-, -, -, rfl, -⟩ := hOpens
          rfl
      | _ => exact (or_self_iff.1 hOpens).symm

/-- No raw text begins behind a last token. -/
theorem rawTextBehind_of_lastToken {pass : Pass} {rawText : Option (List Char)} {c : Char}
    {content : Content} {more rest : List Char}
    (hStep : nextStep pass rawText c rest = .lastToken content more) :
    (⟨content, c :: more⟩ : Token).rawTextBehind none = none := by
  cases content with
  | openTag tag => exact absurd rfl (not_openTag_of_lastToken hStep tag)
  | _ => rfl

/-- The token was read in some pass, or it is the text that the last pass leaves. -/
def Token.IsRead (rawText : Option (List Char)) (behind : List Char) (token : Token) : Prop :=
  ∃ c more, token.source = c :: more ∧
    ((∃ pass next, nextStep pass rawText c (more ++ behind) = .token token.content more next) ∨
      (∃ pass, nextStep pass rawText c (more ++ behind) = .lastToken token.content more) ∨
      token.content = .text ∧ behind = [])

def TokensRead (dropped : List Char) : Option (List Char) → List Token → Prop
  | _, [] => True
  | rawText, token :: rest =>
    token.IsRead rawText (rest.flatMap Token.source ++ dropped) ∧
      TokensRead dropped (token.rawTextBehind rawText) rest

theorem tokensRead_scanEnd (rawText : Option (List Char)) (text : List Char) :
    TokensRead (scanEnd [] rawText text).dropped rawText (scanEnd [] rawText text).tokens := by
  unfold scanEnd
  split
  · exact ⟨⟨_, _, rfl, .inr (.inr ⟨rfl, rfl⟩)⟩, trivial⟩
  · trivial

/-- Every token of a run was read where it stands. -/
theorem Scans.tokensRead {pass : Pass} {rawText : Option (List Char)} {text dropped : List Char}
    {tokens : List Token} (hScans : Scans pass rawText text tokens dropped) :
    TokensRead dropped rawText tokens := by
  induction hScans with
  | nil => trivial
  | token step tail ih =>
      refine ⟨⟨_, _, rfl, .inl ⟨_, _, by rw [tail.join]; exact step⟩⟩, ?_⟩
      rw [rawTextBehind_of_nextStep step]
      exact ih
  | lastToken step tail ih =>
      obtain rfl := rawText_of_lastToken step
      refine ⟨⟨_, _, rfl, .inr (.inl ⟨_, by rw [tail.join]; exact step⟩)⟩, ?_⟩
      rw [rawTextBehind_of_lastToken step]
      exact ih
  | stop step tail ih => exact ih
  | @lastTokenEnd rawText c content more rest step =>
      obtain rfl := rawText_of_lastToken step
      refine ⟨⟨_, _, rfl, .inr (.inl ⟨_, by rw [join_scanEnd]; exact step⟩)⟩, ?_⟩
      rw [rawTextBehind_of_lastToken step]
      exact tokensRead_scanEnd none rest
  | stopEnd step => exact tokensRead_scanEnd _ _

/-- Outside of raw text the first pass halts at a token where it halted before the tags behind it
were written anew. -/
def HaltsStay (write : OpenTag → List Char) (dropped : List Char) :
    Option (List Char) → List Token → Prop
  | _, [] => True
  | rawText, token :: rest =>
    (rawText = none → ∀ c more, token.source = c :: more →
      (nextStep .first none c (more ++ (rest.flatMap Token.source ++ dropped))).Halts →
        nextStep .first none c (more ++ (rewriteTags write rest ++ dropped)) =
          nextStep .first none c (more ++ (rest.flatMap Token.source ++ dropped))) ∧
      HaltsStay write dropped (token.rawTextBehind rawText) rest

section
variable {write : OpenTag → List Char} {tokens : List Token}
  (hSource : ∀ token ∈ tokens, ∀ tag, token.content = .openTag tag → token.source = tag.source)
include hSource

/-- Without a character that every tag holds there is no tag to be written anew. -/
theorem rewriteTags_plain {mark : Char} (hMark : ∀ tag : OpenTag, mark ∈ tag.source)
    (hPlain : mark ∉ tokens.flatMap Token.source) :
    rewriteTags write tokens = tokens.flatMap Token.source := by
  induction tokens with
  | nil => rfl
  | cons token rest ih =>
      simp only [List.flatMap_cons, List.mem_append, not_or] at hPlain
      have hOther : ∀ tag, token.content ≠ .openTag tag := by
        intro tag hContent
        rw [hSource token (List.mem_cons_self ..) tag hContent] at hPlain
        exact hPlain.1 (hMark tag)
      rw [rewriteTags_cons_other write hOther, List.flatMap_cons,
        ih (fun other hMem => hSource other (List.mem_cons_of_mem _ hMem)) hPlain.2]

/-- Tags keep their first character when they are written anew, and so does the text. -/
theorem head?_rewriteTags (hOpens : ∀ tag, (write tag).head? = some '<') (dropped : List Char) :
    (rewriteTags write tokens ++ dropped).head? =
      (tokens.flatMap Token.source ++ dropped).head? := by
  induction tokens with
  | nil => rfl
  | cons token rest ih =>
      have hRest := ih fun other hMem => hSource other (List.mem_cons_of_mem _ hMem)
      rcases token.content.openTag_or_other with ⟨tag, hContent⟩ | hOther
      · rw [rewriteTags_cons_openTag write hContent, List.flatMap_cons,
          hSource token (List.mem_cons_self ..) tag hContent, List.append_assoc, List.append_assoc,
          List.head?_append, List.head?_append, hOpens]
        rfl
      · rw [rewriteTags_cons_other write hOther,
          List.flatMap_cons, List.append_assoc, List.append_assoc]
        simp only [List.head?_append] at hRest ⊢
        rw [hRest]

end

theorem OpenTag.open_mem_source (tag : OpenTag) : '<' ∈ tag.source := by
  simp [source]

theorem OpenTag.end_mem_source (tag : OpenTag) : '>' ∈ tag.source := by
  unfold source sourceTail ending
  split <;> simp

theorem map_rewrite_scanEnd (write : OpenTag → List Char) (change : OpenTag → OpenTag)
    (rawText : Option (List Char)) (text : List Char) :
    (scanEnd [] rawText text).tokens.map (Token.rewrite write change) =
      (scanEnd [] rawText text).tokens := by
  unfold scanEnd
  split <;> rfl

theorem rewriteTags_scanEnd (write : OpenTag → List Char) (rawText : Option (List Char))
    (text : List Char) :
    rewriteTags write (scanEnd [] rawText text).tokens ++ (scanEnd [] rawText text).dropped =
      text := by
  unfold scanEnd
  split <;> simp [rewriteTags]

/-- A text without a character that every tag holds stays what it is. -/
theorem Scans.rewriteTags_eq {write : OpenTag → List Char} {pass : Pass}
    {rawText : Option (List Char)} {text dropped : List Char} {tokens : List Token}
    (hScans : Scans pass rawText text tokens dropped) {mark : Char}
    (hMark : ∀ tag : OpenTag, mark ∈ tag.source) (hPlain : mark ∉ text) :
    rewriteTags write tokens ++ dropped = text := by
  rw [← hScans.join] at hPlain ⊢
  rw [rewriteTags_plain hScans.source_of_openTag hMark fun hMem =>
    hPlain (List.mem_append_left _ hMem)]

/-- An end tag that ends raw text stays whole when the tags behind it are written anew. -/
theorem Scans.rewriteTags_rawText {write : OpenTag → List Char} {pass : Pass} {name : List Char}
    {text dropped : List Char} {tokens : List Token}
    (hScans : Scans pass (some name) text tokens dropped)
    (hLooks : looksLikeEndOf name text = true) :
    ∃ front tail later, text = front ++ tail ∧
      rewriteTags write tokens ++ dropped = front ++ later ∧ '>' ∈ front := by
  generalize hRaw : some name = rawText at hScans
  induction hScans with
  | nil => simp [looksLikeEndOf] at hLooks
  | @token pass rawText next c content more rest dropped tokens step tail ih =>
      subst hRaw
      have hOther := not_openTag_of_rawText step
      have hEnd : '>' ∈ more := rawTextStep_holdsEnd hLooks step
      exact ⟨c :: more, rest, rewriteTags write tokens ++ dropped, rfl,
        by rw [rewriteTags_cons_other write hOther, List.append_assoc], by simp [hEnd]⟩
  | lastToken step =>
      rw [rawText_of_lastToken step] at hRaw
      cases hRaw
  | stop step tail ih => exact ih hLooks hRaw
  | lastTokenEnd step =>
      rw [rawText_of_lastToken step] at hRaw
      cases hRaw
  | @stopEnd rawText c rest step =>
      exact ⟨c :: rest, [], [], by simp, by rw [rewriteTags_scanEnd, List.append_nil],
        end_mem_of_looksLikeEndOf hLooks⟩

/-- A token outside of raw text that is no opening tag stays what it is in either pass, as long as
the first pass halts there where it halted before. -/
theorem nextStep_append_halts {pass : Pass} {c : Char} {more rest other : List Char}
    {content : Content} {next : Option (List Char)}
    (hStep : nextStep pass none c (more ++ rest) = .token content more next)
    (hOther : ∀ tag, content ≠ .openTag tag) (hHead : other.head? = rest.head?)
    (hOpen : '<' ∉ rest → other = rest) (hEnd : '>' ∉ rest → other = rest)
    (hStay : (nextStep .first none c (more ++ rest)).Halts →
      nextStep .first none c (more ++ other) = nextStep .first none c (more ++ rest)) :
    nextStep pass none c (more ++ other) = .token content more next := by
  by_cases hStop : nextStep .first none c (more ++ rest) = .stop
  · cases pass with
    | first => simp [hStop] at hStep
    | last =>
        obtain ⟨-, rfl, hUnfinished⟩ := markup_of_stop hStop hStep
        by_cases hMem : '>' ∈ more ++ rest
        · obtain ⟨hMore, -, hSame⟩ := unfinished_append hUnfinished hMem
          rw [hStop] at hStay
          have hAgain : markupStep .first (more ++ other) = .stop := hStay trivial
          have hNonempty : more ++ other ≠ [] :=
            List.append_ne_nil_of_left_ne_nil (List.ne_nil_of_mem hMore) other
          have hLast : nextStep .last none '<' (more ++ other) = markupStep .last (more ++ other) :=
            rfl
          rw [hLast, markupStep_last hNonempty, hAgain]
          exact hSame other
        · rw [hEnd fun hRest => hMem (List.mem_append_right _ hRest)]
          exact hStep
  · have hLast := nextStep_last hStop
    have hFirst : nextStep .first none c (more ++ rest) = .token content more next := by
      cases pass with
      | first => exact hStep
      | last => rw [← hLast, hStep]
    have hAgain := nextStep_append hFirst hOther hHead hOpen
    cases pass with
    | first => exact hAgain
    | last =>
        rw [nextStep_last (by simp [hAgain]), hAgain]

section
variable {write : OpenTag → List Char} {change : OpenTag → OpenTag}

/-- Where the first pass stops it stops again. -/
theorem Scans.stop_rewritten {rawText : Option (List Char)} {c : Char} {rest dropped : List Char}
    {tokens : List Token} (hStop : nextStep .first rawText c rest = .stop)
    (hTail : Scans .last rawText (c :: rest) tokens dropped)
    (hStay : HaltsStay write dropped rawText tokens) :
    ∃ later, rewriteTags write tokens ++ dropped = c :: later ∧
      nextStep .first rawText c later = .stop := by
  generalize hText : c :: rest = text at hTail
  cases hTail with
  | nil => cases hText
  | @token _ _ next c' content more behind _ later step tail =>
      cases hText
      obtain ⟨rfl, rfl, hUnfinished⟩ := markup_of_stop hStop step
      obtain ⟨rfl, -⟩ := unfinished_text hUnfinished
      have hAgain := hStay.1 rfl '<' more rfl
      rw [tail.join, hStop] at hAgain
      refine ⟨_, ?_, hAgain trivial⟩
      rw [rewriteTags_cons_other write (by simp), List.append_assoc]
      rfl
  | @lastTokenEnd _ c' content more behind step =>
      cases hText
      refine ⟨more ++ behind, ?_, hStop⟩
      rw [rewriteTags_cons_other write (not_openTag_of_lastToken step), List.append_assoc,
        rewriteTags_scanEnd]
      rfl
  | stopEnd step =>
      cases hText
      exact ⟨rest, rewriteTags_scanEnd write _ _, hStop⟩

variable (hName : ∀ tag, (change tag).name = tag.name)
  (hClosed : ∀ tag, (change tag).selfClosed = tag.selfClosed)
include hName hClosed

theorem rawTextBehind_rewrite (rawText : Option (List Char)) (token : Token) :
    (token.rewrite write change).rawTextBehind rawText = token.rawTextBehind rawText := by
  obtain ⟨content, source⟩ := token
  cases content with
  | openTag tag => simp [Token.rewrite, Token.rawTextBehind, hName, hClosed]
  | _ => rfl

variable (hOpens : ∀ tag, (write tag).head? = some '<')
include hOpens

/-- Where every new tag is read where it stands and the first pass halts as before, a run over the
text becomes a run over the new text. -/
theorem Scans.rewrite {pass : Pass} {rawText : Option (List Char)} {text dropped : List Char}
    {tokens : List Token} (hScans : Scans pass rawText text tokens dropped)
    (hTags : TagsEnd dropped (tokens.map (Token.rewrite write change)))
    (hStay : HaltsStay write dropped rawText tokens)
    (hRaw : ∀ name, rawText = some name → '>' ∉ name) :
    Scans pass rawText (rewriteTags write tokens ++ dropped)
      (tokens.map (Token.rewrite write change)) dropped := by
  induction hScans with
  | nil pass rawText => exact .nil pass rawText
  | @token pass rawText next c content more rest dropped tokens step tail ih =>
      have hBehind := hStay.2
      rw [rawTextBehind_of_nextStep step] at hBehind
      have hTail := ih hTags.2 hBehind (end_not_mem_of_nextStep step hRaw)
      rcases content.openTag_or_other with ⟨tag, rfl⟩ | hOther
      · obtain ⟨hSource, hEnds⟩ := (tagsEnd_map_rewrite_cons.1 hTags).1 tag rfl
        rw [List.map_cons, Token.rewrite_openTag write change rfl,
          rewriteTags_cons_openTag write rfl, List.append_assoc, hSource]
        exact .token (nextStep_rewritten hName hClosed step hEnds) hTail
      · rw [List.map_cons, Token.rewrite_other write change hOther,
          rewriteTags_cons_other write hOther, List.append_assoc, List.cons_append]
        refine .token ?_ hTail
        cases rawText with
        | none =>
            have hHead := head?_rewriteTags tail.source_of_openTag hOpens dropped
            have hHalts := hStay.1 rfl c more rfl
            rw [tail.join] at hHead hHalts
            exact nextStep_append_halts step hOther hHead
              (tail.rewriteTags_eq OpenTag.open_mem_source)
              (tail.rewriteTags_eq OpenTag.end_mem_source) hHalts
        | some name =>
            refine rawTextStep_append (hRaw name rfl) step fun hNext hLooks => ?_
            subst hNext
            exact tail.rewriteTags_rawText hLooks
  | @lastToken rawText c content more rest dropped tokens step tail ih =>
      obtain rfl := rawText_of_lastToken step
      have hOther := not_openTag_of_lastToken step
      have hBehind := hStay.2
      have hHalts := hStay.1 rfl c more rfl
      rw [tail.join, step] at hHalts
      rw [rawTextBehind_of_lastToken step] at hBehind
      rw [List.map_cons, Token.rewrite_other write change hOther,
        rewriteTags_cons_other write hOther, List.append_assoc, List.cons_append]
      exact .lastToken (hHalts trivial) (ih hTags.2 hBehind (by simp))
  | @stop rawText c rest dropped tokens step tail ih =>
      obtain ⟨later, hText, hStop⟩ := Scans.stop_rewritten step tail hStay
      have hTail := ih hTags hStay hRaw
      rw [hText] at hTail ⊢
      exact .stop hStop hTail
  | @lastTokenEnd rawText c content more rest step =>
      have hOther := not_openTag_of_lastToken step
      rw [List.map_cons, Token.rewrite_other write change hOther, map_rewrite_scanEnd,
        rewriteTags_cons_other write hOther, List.append_assoc, rewriteTags_scanEnd]
      exact .lastTokenEnd step
  | stopEnd step =>
      rw [map_rewrite_scanEnd, rewriteTags_scanEnd]
      exact .stopEnd step

end

/-- Where the same token is read with other text behind it, the first pass halts as before. -/
theorem Token.IsRead.halts_again {token : Token} {c : Char} {more rest other : List Char}
    (hSource : token.source = c :: more) (hRead : token.IsRead none rest)
    (hAgain : token.IsRead none other) (hHead : other.head? = rest.head?)
    (hEnd : '>' ∉ rest → other = rest)
    (hHalts : (nextStep .first none c (more ++ rest)).Halts) :
    nextStep .first none c (more ++ other) = nextStep .first none c (more ++ rest) := by
  by_cases hMem : '>' ∈ rest
  · have hRest : rest ≠ [] := List.ne_nil_of_mem hMem
    have hOther : other ≠ [] := by
      rintro rfl
      exact hRest (List.head?_eq_none_iff.1 hHead.symm)
    obtain ⟨c', more', hSame, hRead⟩ := hRead
    obtain ⟨c'', more'', hSame', hAgain⟩ := hAgain
    rw [hSource] at hSame hSame'
    obtain ⟨rfl, rfl⟩ := List.cons.inj hSame
    obtain ⟨rfl, rfl⟩ := List.cons.inj hSame'
    rcases hRead with ⟨pass, next, hStep⟩ | ⟨pass, hStep⟩ | ⟨-, hNil⟩
    · have hStop : nextStep .first none c (more ++ rest) = .stop := by
        by_contra hGoesOn
        have hFirst : nextStep .first none c (more ++ rest) = .token token.content more next := by
          cases pass with
          | first => exact hStep
          | last => rw [← nextStep_last hGoesOn, hStep]
        simp [hFirst, Step.Halts] at hHalts
      cases pass with
      | first => simp [hStop] at hStep
      | last =>
          obtain ⟨-, rfl, hUnfinished⟩ := markup_of_stop hStop hStep
          obtain ⟨hMore, hText, -⟩ := unfinished_append hUnfinished (List.mem_append_right _ hMem)
          rw [hText] at hAgain
          rw [hStop]
          by_contra hGoesOn
          rcases hAgain with ⟨pass, next, hStep⟩ | ⟨pass, hStep⟩ | ⟨-, hNil⟩
          · have hFirst : markupStep .first (more ++ other) = .token .text more next := by
              cases pass with
              | first => exact hStep
              | last =>
                  rw [nextStep_last hGoesOn] at hStep
                  exact hStep
            exact end_not_mem_of_markupStep hFirst hMore
          · exact markupStep_ne_lastToken hStep
          · exact hOther hNil
    · obtain ⟨rfl, hText, rfl, -⟩ := lastToken_eq hStep (List.mem_append_right _ hMem)
      rw [hText] at hStep hAgain
      have hFirst : nextStep .first none '&' (['#'] ++ rest) = .lastToken .text ['#'] := hStep
      rcases hAgain with ⟨pass, next, hStep⟩ | ⟨pass, hStep⟩ | ⟨-, hNil⟩
      · exfalso
        have hReference : referenceStep .first ('#' :: other) = .token .text ['#'] next := hStep
        simp only [referenceStep] at hReference
        split at hReference
        · simp at hReference
        · split at hReference <;> simp at hReference
      · have hOtherFirst : nextStep .first none '&' (['#'] ++ other) = .lastToken .text ['#'] :=
          hStep
        rw [hFirst, hOtherFirst]
      · exact absurd hNil hOther
    · exact absurd hNil hRest
  · rw [hEnd hMem]

section
variable {write : OpenTag → List Char} {change : OpenTag → OpenTag}
  (hName : ∀ tag, (change tag).name = tag.name)
  (hClosed : ∀ tag, (change tag).selfClosed = tag.selfClosed)
  (hOpens : ∀ tag, (write tag).head? = some '<')
include hName hClosed hOpens

/-- Where the new tokens were read from the new text, the first pass halts as before. -/
theorem haltsStay_of_tokensRead {dropped : List Char} {rawText : Option (List Char)}
    {tokens : List Token} (hEnd : TagsEnd dropped tokens)
    (hRead : TokensRead dropped rawText tokens)
    (hAgain : TokensRead dropped rawText (tokens.map (Token.rewrite write change))) :
    HaltsStay write dropped rawText tokens := by
  induction tokens generalizing rawText with
  | nil => trivial
  | cons token rest ih =>
      have hSource := hEnd.2.source_of_openTag
      obtain ⟨hAgainHere, hAgainBehind⟩ := hAgain
      rw [rawTextBehind_rewrite hName hClosed] at hAgainBehind
      rw [flatMap_source_rewrite] at hAgainHere
      refine ⟨?_, ih hEnd.2 hRead.2 hAgainBehind⟩
      rintro rfl c more hText hHalts
      have hOther : ∀ tag, token.content ≠ .openTag tag := by
        intro tag hContent
        obtain ⟨hTag, hEnds⟩ := hEnd.1 tag hContent
        rw [hText] at hTag
        obtain ⟨rfl, rfl⟩ := List.cons.inj hTag
        rw [nextStep_of_ends hEnds] at hHalts
        exact hHalts
      rw [Token.rewrite_other write change hOther] at hAgainHere
      refine Token.IsRead.halts_again hText hRead.1 hAgainHere (head?_rewriteTags hSource hOpens _)
        (fun hPlain => ?_) hHalts
      rw [rewriteTags_plain hSource OpenTag.end_mem_source fun hMem =>
        hPlain (List.mem_append_left _ hMem)]

/-- The text in which tags were written anew has the tokens of the new tags exactly where each of
them is read where it stands and the first pass halts as before. -/
theorem scan_rewritten_iff {text : List Char} {document : Document}
    (hRead : Document.read text = .ok document) :
    scan (rewriteTags write (scan text).tokens ++ (scan text).dropped) =
        ⟨(scan text).tokens.map (Token.rewrite write change), (scan text).dropped, none⟩ ↔
      TagsEnd (scan text).dropped ((scan text).tokens.map (Token.rewrite write change)) ∧
        HaltsStay write (scan text).dropped none (scan text).tokens := by
  obtain ⟨hScans, -⟩ := Document.scans_of_read hRead
  constructor
  · intro hScan
    have hAgain := scans_of_scanOnto hScan
    exact ⟨hAgain.tagsEnd,
      haltsStay_of_tokensRead hName hClosed hOpens hScans.tagsEnd hScans.tokensRead
        hAgain.tokensRead⟩
  · rintro ⟨hTags, hStay⟩
    exact (hScans.rewrite hName hClosed hOpens hTags hStay (by simp)).scanOnto_eq

end

section
variable {write : OpenTag → List Char}

/-- Tags that are written as they were leave the text as it was. -/
theorem rewriteTags_unchanged {tokens : List Token}
    (hSame : ∀ token ∈ tokens, ∀ tag, token.content = .openTag tag → write tag = token.source) :
    rewriteTags write tokens = tokens.flatMap Token.source := by
  induction tokens with
  | nil => rfl
  | cons token rest ih =>
      have hRest := ih fun other hMem => hSame other (List.mem_cons_of_mem _ hMem)
      rcases token.content.openTag_or_other with ⟨tag, hContent⟩ | hOther
      · rw [rewriteTags_cons_openTag write hContent, List.flatMap_cons, hRest,
          hSame token (List.mem_cons_self ..) tag hContent]
      · rw [rewriteTags_cons_other write hOther,
          List.flatMap_cons, hRest]

/-- The first pass halts as before where every tag is written as it was. -/
theorem haltsStay_of_unchanged {tokens : List Token}
    (hSame : ∀ token ∈ tokens, ∀ tag, token.content = .openTag tag → write tag = token.source)
    (dropped : List Char) (rawText : Option (List Char)) :
    HaltsStay write dropped rawText tokens := by
  induction tokens generalizing rawText with
  | nil => trivial
  | cons token rest ih =>
      have hRest := fun other hMem => hSame other (List.mem_cons_of_mem _ hMem)
      refine ⟨fun _ c more _ _ => ?_, ih hRest _⟩
      rw [rewriteTags_unchanged hRest]

/-- The first pass halts nowhere in what it reads, so it halts as before wherever all the tags that
are changed are in that part. -/
theorem Reads.haltsStay {dropped left : List Char} {rawText last : Option (List Char)}
    {text : List Char} {front behind : List Token} (hFront : Reads rawText text front last left)
    (hLeft : behind.flatMap Token.source ++ dropped = left)
    (hSame : ∀ token ∈ behind, ∀ tag, token.content = .openTag tag → write tag = token.source) :
    HaltsStay write dropped rawText (front ++ behind) := by
  induction hFront with
  | done rawText text => exact haltsStay_of_unchanged hSame dropped rawText
  | @token rawText next last c content more rest left tokens step tail ih =>
      have hRest := ih hLeft
      rw [← rawTextBehind_of_nextStep step] at hRest
      refine ⟨?_, hRest⟩
      rintro rfl c' more' hText hHalts
      obtain ⟨rfl, rfl⟩ := List.cons.inj hText
      have hJoin : (tokens ++ behind).flatMap Token.source ++ dropped = rest := by
        rw [List.flatMap_append, List.append_assoc, hLeft, tail.join]
      change (nextStep .first none c
        (more ++ ((tokens ++ behind).flatMap Token.source ++ dropped))).Halts at hHalts
      rw [hJoin, step] at hHalts
      exact hHalts.elim

end

end AccessibleMarkup.Markup
