import AccessibleMarkup.Proofs.LabelEdits
import AccessibleMarkup.Proofs.LabelledTags

/-! Which halts of the first pass labels can do away with. A label holds neither a `>` nor an end of
a comment or a section, and it stands in a tag. So comments, sections and references that did not
end still do not end; only the beginning of a tag may end at last, where a label closes a quote in
it. -/
namespace AccessibleMarkup.Markup

open AccessibleMarkup.Text

/-- A mark is not found in a text where no part of the text begins with it. -/
theorem splitAtMark?_eq_none_iff {mark : Mark} (hNeeds : mark.NeedsEnd) {text : List Char} :
    splitAtMark? mark text = none ↔ ∀ rest, rest <:+ text → mark rest = none := by
  rw [splitAtMark?_eq hNeeds, Option.map_eq_none_iff]
  induction text with
  | nil => simp
  | cons c text ih =>
      rw [splitRun_cons]
      constructor
      · intro hNone rest hRest
        split at hNone
        · rename_i hTest
          rcases List.suffix_cons_iff.1 hRest with rfl | hRest
          · exact Option.isNone_iff_eq_none.1 hTest
          · exact ih.1 hNone rest hRest
        · rename_i hTest
          exact absurd (Option.isNone_iff_eq_none.2 hNone) hTest
      · intro hAll
        rw [if_pos (Option.isNone_iff_eq_none.2 (hAll _ List.suffix_rfl))]
        exact ih.2 fun rest hRest => hAll rest (hRest.trans (List.suffix_cons ..))

section
variable {mark : Mark} (hMark : mark.EndsMarkup) (hNoQuote : mark.HoldsNoQuote)
include hMark hNoQuote

/-- A mark does not reach into a piece with a quote and without a `>`. -/
theorem mark_eq_none_of_piece {before piece behind : List Char} (hEnd : '>' ∉ piece)
    (hQuote : '"' ∈ piece) (hNone : mark (before ++ behind) = none) :
    mark (before ++ (piece ++ behind)) = none := by
  cases hFound : mark (before ++ (piece ++ behind)) with
  | none => rfl
  | some found =>
      exfalso
      obtain ⟨front, hFront, hFrontQuote⟩ := hNoQuote _ _ hFound
      have hMem : '>' ∈ found.1 := by simp [hFront]
      have hJoin := hMark.joins _ _ hFound
      obtain ⟨left, rfl⟩ : ∃ left, before = found.1 ++ left := by
        rcases List.append_eq_append_iff.1 hJoin with ⟨left, hBefore, -⟩ | ⟨reach, hReach, hRest⟩
        · exact ⟨left, hBefore⟩
        · rcases List.append_eq_append_iff.1 hRest with ⟨beyond, hBeyond, -⟩ | ⟨left, hPiece, -⟩
          · have hIn : '"' ∈ front ++ ['>'] := by
              rw [← hFront, hReach, hBeyond]
              simp [hQuote]
            simp [hFrontQuote] at hIn
          · rcases List.eq_nil_or_concat' reach with rfl | ⟨init, last, rfl⟩
            · exact ⟨[], by simpa using hReach.symm⟩
            · have hLast : last = '>' := by
                have hSame := congrArg List.getLast? (hFront.symm.trans hReach)
                rw [← List.append_assoc, List.getLast?_concat, List.getLast?_concat] at hSame
                exact (Option.some.inj hSame).symm
              rw [hPiece, hLast] at hEnd
              simp at hEnd
      rw [List.append_assoc, hMark.settles _ hMem, Option.map_eq_none_iff] at hNone
      rw [List.append_assoc, hMark.settles _ hMem, hNone] at hFound
      simp at hFound

/-- A mark that is not found in a text is not found after such a piece was put in. -/
theorem splitAtMark?_insert {before piece behind : List Char} (hEnd : '>' ∉ piece)
    (hLast : piece.getLast? = some '"') (hNone : splitAtMark? mark (before ++ behind) = none) :
    splitAtMark? mark (before ++ (piece ++ behind)) = none := by
  rw [splitAtMark?_eq_none_iff hMark.needsEnd] at hNone ⊢
  rintro rest ⟨front, hJoin⟩
  rcases List.append_eq_append_iff.1 hJoin with ⟨left, rfl, rfl⟩ | ⟨beyond, rfl, hRest⟩
  · refine mark_eq_none_of_piece hMark hNoQuote hEnd (List.mem_of_getLast? hLast) (hNone _ ?_)
    exact ⟨front, by simp⟩
  · rcases List.append_eq_append_iff.1 hRest with ⟨left, -, hBehind⟩ | ⟨left, rfl, rfl⟩
    · exact hNone _ ⟨before ++ left, by simp [hBehind]⟩
    · cases left with
      | nil => exact hNone _ ⟨before, rfl⟩
      | cons c left =>
          rw [List.getLast?_append_of_ne_nil _ (by simp)] at hLast
          refine @mark_eq_none_of_piece _ hMark hNoQuote [] _ _
            (fun hMem => hEnd (List.mem_append_right _ hMem)) (List.mem_of_getLast? hLast) ?_
          exact hNone _ ⟨before, rfl⟩

end

/-! Where the first pass stops at markup that goes on with a `>`, this is the beginning of a
comment, a section or a tag. -/

/-- An end tag ends as soon as a `>` follows. -/
theorem endTagStep_ne_stop {rest text : List Char} (hEnd : '>' ∈ text) :
    endTagStep .first rest text ≠ .stop := by
  unfold endTagStep
  split
  · rename_i hNone
    exact absurd hEnd (splitAtFirst?_eq_none_iff.1 hNone)
  · simp only
    split
    · simp
    · split
      · simp
      · split <;> simp

/-- A processing instruction ends as soon as a `>` follows. -/
theorem instructionStep_ne_stop {text : List Char} (hEnd : '>' ∈ text) :
    markupStep .first ('?' :: text) ≠ .stop := by
  rw [markupStep_instruction]
  split
  · simp
  · rename_i hNone
    exact absurd hEnd (splitAtFirst?_eq_none_iff.1 hNone)

/-- A declaration that is no section and no comment ends as soon as a `>` follows, since its word
holds none. -/
theorem declarationStep_ne_stop {text : List Char} (hSection : text.head? ≠ some '[')
    (hComment : ¬ ['-', '-'] <+: text) (hEnd : '>' ∈ text) :
    markupStep .first ('!' :: text) ≠ .stop := by
  rw [markupStep_declaration hSection hComment]
  split
  · rename_i hDoctype
    split
    · simp
    · rename_i hNone
      rcases List.mem_append.1 (List.take_append_drop 7 text ▸ hEnd) with hWord | hDrop
      · have hMem := List.mem_map_of_mem (f := Char.toLower) hWord
        rw [of_decide_eq_true hDoctype] at hMem
        exact absurd hMem (by decide)
      · exact absurd hDrop (splitAtFirst?_eq_none_iff.1 hNone)
  · split
    · simp
    · rename_i hNone
      exact absurd hEnd (splitAtFirst?_eq_none_iff.1 hNone)

section
variable {piece rest other : List Char} (hPut : PutInto piece rest other) (hNoEnd : '>' ∉ piece)
  (hLast : piece.getLast? = some '"')
include hPut hNoEnd hLast

/-- A mark that is not found in a text is not found after such a piece was put in many times. -/
theorem splitAtMark?_putInto {mark : Mark} (hMark : mark.EndsMarkup)
    (hNoQuote : mark.HoldsNoQuote) {before : List Char}
    (hNone : splitAtMark? mark (before ++ rest) = none) :
    splitAtMark? mark (before ++ other) = none := by
  induction hPut generalizing before with
  | same => exact hNone
  | @copy c text other tail ih =>
      simpa using @ih (before ++ [c]) (by simpa using hNone)
  | @put text other tail ih =>
      have hInsert := splitAtMark?_insert hMark hNoQuote hNoEnd hLast hNone
      rw [← List.append_assoc] at hInsert ⊢
      exact ih hInsert

/-- A marked section that does not end in spite of a `>` in its front does not end with another text
behind that either. -/
theorem sectionStep_stop {text : List Char} (hEnd : '>' ∈ text)
    (hStop : sectionStep .first ('!' :: '[' :: (text ++ rest)) (text ++ rest) = .stop) :
    sectionStep .first ('!' :: '[' :: (text ++ other)) (text ++ other) = .stop := by
  cases text with
  | nil => simp at hEnd
  | cons c tail =>
      by_cases hLetter : isLetter c = true
      · have hTail : '>' ∈ tail := by
          rcases List.mem_cons.1 hEnd with rfl | hTail
          · exact absurd hLetter (by decide)
          · exact hTail
        have hName (text : List Char) :=
          @splitRun_append_of_mem continuesSectionName _ _ hTail (by decide) text
        have hBlank (text : List Char) := splitBlank_append_of_mem (hName []).2 text
        have hBehind (text : List Char) :
            ((splitBlank (splitRun (fun c _ => continuesSectionName c) tail).2).2 ++
              text).isEmpty = false := by
          rw [List.isEmpty_eq_false_iff]
          exact List.append_ne_nil_of_left_ne_nil (List.ne_nil_of_mem (hBlank []).2) _
        simp only [sectionStep, List.cons_append, hLetter, (hName rest).1, (hBlank rest).1,
          hBehind] at hStop
        simp only [sectionStep, List.cons_append, hLetter, (hName other).1, (hBlank other).1,
          hBehind]
        simp only [Bool.not_true, Bool.false_eq_true, if_false] at hStop ⊢
        generalize hKey : ((c :: (splitRun (fun c _ => continuesSectionName c) tail).1).map
          Char.toLower) = key at hStop ⊢
        have hFound (mark : Mark) (hMark : mark.EndsMarkup) (hNoQuote : mark.HoldsNoQuote)
            (hNone : splitAtMark? mark (c :: (tail ++ rest)) = none) :
            splitAtMark? mark (c :: (tail ++ other)) = none :=
          @splitAtMark?_putInto _ _ _ hPut hNoEnd hLast _ hMark hNoQuote (c :: tail) hNone
        split at hStop
        · simp at hStop
        · rename_i mark hKind
          have hMark : mark.EndsMarkup ∧ mark.HoldsNoQuote := by
            rcases eq_of_sectionMark hKind with rfl | rfl
            · exact ⟨longSectionEnd_endsMarkup, longSectionEnd_holdsNoQuote⟩
            · exact ⟨shortSectionEnd_endsMarkup, shortSectionEnd_holdsNoQuote⟩
          split at hStop
          · simp at hStop
          · rename_i hNone
            simp only [hFound mark hMark.1 hMark.2 hNone, unfinished_first]
      · simp [sectionStep, hLetter] at hStop

/-- Where the first pass stops at markup it stops again, as long as the beginning of a tag does not
end. -/
theorem markupStep_stop {text : List Char} (hEnd : '>' ∈ text)
    (hTag : readOpenTag (text ++ rest) = .incomplete → readOpenTag (text ++ other) = .incomplete)
    (hStop : markupStep .first (text ++ rest) = .stop) :
    markupStep .first (text ++ other) = .stop := by
  cases text with
  | nil => simp at hEnd
  | cons c tail =>
      rw [List.cons_append] at hStop ⊢
      have hTail (hNot : '>' ≠ c) (text : List Char) : '>' ∈ tail ++ text :=
        List.mem_append_left _ ((List.mem_cons.1 hEnd).resolve_left hNot)
      by_cases hSlash : c = '/'
      · subst hSlash
        exact absurd hStop (endTagStep_ne_stop (hTail (by decide) rest))
      by_cases hQuery : c = '?'
      · subst hQuery
        exact absurd hStop (instructionStep_ne_stop (hTail (by decide) rest))
      by_cases hBang : c = '!'
      · subst hBang
        have hIn := hTail (by decide) []
        rw [List.append_nil] at hIn
        obtain ⟨before, behind, rfl⟩ := List.append_of_mem hIn
        by_cases hSection : (before ++ '>' :: behind ++ rest).head? = some '['
        · cases before with
          | nil => simp at hSection
          | cons d before =>
              obtain rfl : d = '[' := by simpa using hSection
              exact sectionStep_stop hPut hNoEnd hLast (by simp) hStop
        · by_cases hComment : ['-', '-'] <+: before ++ '>' :: behind ++ rest
          · obtain ⟨left, hLeft⟩ := hComment
            rw [List.append_assoc] at hLeft
            obtain ⟨front, rfl, rfl⟩ := append_cons_eq_append (by simp) hLeft.symm
            have hJoin (text : List Char) : '!' :: (['-', '-'] ++ front ++ '>' :: behind ++ text) =
                '!' :: '-' :: '-' :: (front ++ '>' :: behind ++ text) := by simp
            have hText : front ++ '>' :: (behind ++ rest) = front ++ '>' :: behind ++ rest := by
              simp
            rw [hJoin, markupStep_comment] at hStop
            rw [hJoin, markupStep_comment]
            split at hStop
            · simp at hStop
            · rename_i hNone
              rw [splitAtMark?_putInto hPut hNoEnd hLast commentEnd_endsMarkup
                commentEnd_holdsNoQuote hNone]
              rfl
          · exact absurd hStop (declarationStep_ne_stop hSection hComment (by simp))
      rw [markupStep_other hSlash hQuery hBang] at hStop ⊢
      split at hStop
      · rename_i hLetter
        rw [if_pos hLetter]
        rw [openTagStep_eq] at hStop ⊢
        have hIncomplete : readOpenTag (c :: tail ++ rest) = .incomplete := by
          rw [List.cons_append]
          split at hStop
          · simp at hStop
          · simp at hStop
          · assumption
        rw [← List.cons_append, hTag hIncomplete]
        rfl
      · simp at hStop

end

/-- The first pass leaves a numeric reference without a number behind, if a semicolon follows. -/
theorem referenceStep_eq_lastToken_iff {text : List Char} :
    referenceStep .first ('#' :: text) = .lastToken .text ['#'] ↔
      numericReference? text = none ∧ ';' ∈ text := by
  simp only [referenceStep]
  split
  · simp_all
  · rename_i hNone
    simp [hNone]

/-- A numeral is not cut short by a tag that is written anew behind it. -/
theorem numericReference?_eq_none {text other : List Char}
    (hFront : ∀ piece tail, '<' ∉ piece → other = piece ++ tail →
      ∃ behind, text = piece ++ behind ∧ behind.head? = tail.head?)
    (hNone : numericReference? text = none) : numericReference? other = none := by
  cases hFound : numericReference? other with
  | none => rfl
  | some numeral =>
      exfalso
      have hRead : Numeral.read? other = some numeral := by
        unfold numericReference? at hFound
        split at hFound
        · simp at hFound
        · rename_i found hRead
          split at hFound
          · simp at hFound
          · split at hFound
            · simp at hFound
            · rw [hRead, ← hFound]
      obtain ⟨tail, rfl, hPlain⟩ :
          ∃ tail, other = numeral.source ++ tail ∧ '<' ∉ numeral.source := by
        rcases Numeral.read?_eq_some_iff.1 hRead with
          ⟨mark, digits, rest, rfl, hMark, -, hText, hDigits, -⟩ |
          ⟨digits, rest, rfl, -, hText, hDigits, -⟩
        · refine ⟨rest, hText, ?_⟩
          have hNot : '<' ∉ digits := fun hMem => absurd (hDigits _ hMem) (by decide)
          rcases hMark with rfl | rfl <;> simp [Numeral.source, hNot]
        · exact ⟨rest, hText, fun hMem => absurd (hDigits _ hMem) (by decide)⟩
      obtain ⟨behind, rfl, hHead⟩ := hFront _ _ hPlain rfl
      rw [numericReference?_append hFound hHead] at hNone
      simp at hNone

/-- The beginning of a tag still does not end when the tags behind it are written anew. -/
def BeginningsRemain (write : OpenTag → List Char) (dropped : List Char) :
    Option (List Char) → List Token → Prop
  | _, [] => True
  | rawText, token :: rest =>
    (rawText = none → ∀ more, token.source = '<' :: more →
      readOpenTag (more ++ (rest.flatMap Token.source ++ dropped)) = .incomplete →
        readOpenTag (more ++ (rewriteTags write rest ++ dropped)) = .incomplete) ∧
      BeginningsRemain write dropped (token.rawTextBehind rawText) rest

theorem head?_append_congr {text other : List Char} (hHead : other.head? = text.head?)
    (front : List Char) : (front ++ other).head? = (front ++ text).head? := by
  rw [List.head?_append, List.head?_append, hHead]

/-- Text up to the next tag stays when tags are written anew, as does the character behind it. -/
theorem rewriteTags_front {write : OpenTag → List Char} {tokens : List Token}
    (hSource : ∀ token ∈ tokens, ∀ tag, token.content = .openTag tag → token.source = tag.source)
    (hOpens : ∀ tag, (write tag).head? = some '<') {dropped piece tail : List Char}
    (hPlain : '<' ∉ piece) (hJoin : rewriteTags write tokens ++ dropped = piece ++ tail) :
    ∃ behind, tokens.flatMap Token.source ++ dropped = piece ++ behind ∧
      behind.head? = tail.head? := by
  induction tokens generalizing piece with
  | nil => exact ⟨tail, hJoin, rfl⟩
  | cons token rest ih =>
      cases piece with
      | nil =>
          have hHead := head?_rewriteTags hSource hOpens dropped
          rw [hJoin, List.nil_append] at hHead
          exact ⟨_, rfl, hHead.symm⟩
      | cons c piece =>
          have hRest := fun other hMem => hSource other (List.mem_cons_of_mem _ hMem)
          rcases token.content.openTag_or_other with ⟨tag, hContent⟩ | hOther
          · obtain ⟨later, hLater⟩ := List.head?_eq_some_iff.1 (hOpens tag)
            rw [rewriteTags_cons_openTag write hContent, hLater] at hJoin
            obtain rfl : '<' = c := (List.cons.inj hJoin).1
            simp at hPlain
          · rw [rewriteTags_cons_other write hOther,
              List.append_assoc] at hJoin
            rw [List.flatMap_cons, List.append_assoc]
            rcases List.append_eq_append_iff.1 hJoin with
              ⟨left, hPiece, hLeft⟩ | ⟨left, hPiece, rfl⟩
            · rw [hPiece] at hPlain ⊢
              obtain ⟨behind, hBehind, hHead⟩ :=
                ih hRest (fun hMem => hPlain (List.mem_append_right _ hMem)) hLeft
              exact ⟨behind, by rw [hBehind, List.append_assoc], hHead⟩
            · refine ⟨left ++ (rest.flatMap Token.source ++ dropped), by rw [hPiece]; simp, ?_⟩
              exact (head?_append_congr (head?_rewriteTags hRest hOpens dropped) left).symm

/-- The first pass stops at the beginning of a tag. -/
theorem nextStep_of_incomplete {c : Char} {rest : List Char} (hLetter : isLetter c = true)
    (hRead : readOpenTag (c :: rest) = .incomplete) :
    nextStep .first none '<' (c :: rest) = .stop := by
  have hStep : nextStep .first none '<' (c :: rest) = markupStep .first (c :: rest) := rfl
  rw [hStep, markupStep_letter hLetter, openTagStep_eq, hRead]
  rfl

/-- Where the first pass stops at a `<` before a letter, what it read is a tag that does not end. -/
theorem incomplete_of_nextStep {c : Char} {rest : List Char} (hLetter : isLetter c = true)
    (hStop : nextStep .first none '<' (c :: rest) = .stop) :
    readOpenTag (c :: rest) = .incomplete := by
  have hStep : nextStep .first none '<' (c :: rest) = markupStep .first (c :: rest) := rfl
  rw [hStep, markupStep_letter hLetter, openTagStep_eq] at hStop
  split at hStop
  · simp at hStop
  · simp at hStop
  · assumption

theorem readOpenTag_of_head? {text : List Char} (hHead : ∀ c ∈ text.head?, isLetter c = false) :
    readOpenTag text = .incomplete := by
  cases text with
  | nil => rfl
  | cons c text =>
      have hC : isLetter c = false := hHead c rfl
      simp [readOpenTag, readTagName?, hC]

section
variable {write : OpenTag → List Char} {dropped : List Char}

/-- Where the first pass halts as before, the beginnings of tags still do not end. -/
theorem HaltsStay.beginningsRemain (hOpens : ∀ tag, (write tag).head? = some '<')
    {rawText : Option (List Char)} {tokens : List Token} (hEnd : TagsEnd dropped tokens)
    (hStay : HaltsStay write dropped rawText tokens) :
    BeginningsRemain write dropped rawText tokens := by
  induction tokens generalizing rawText with
  | nil => trivial
  | cons token rest ih =>
      refine ⟨fun hNone more hText hRead => ?_, ih hEnd.2 hStay.2⟩
      have hHead : (more ++ (rewriteTags write rest ++ dropped)).head? =
          (more ++ (rest.flatMap Token.source ++ dropped)).head? :=
        head?_append_congr (head?_rewriteTags hEnd.2.source_of_openTag hOpens dropped) more
      cases hOld : more ++ (rest.flatMap Token.source ++ dropped) with
      | nil =>
          rw [hOld] at hHead
          rw [List.head?_eq_none_iff.1 hHead]
          rfl
      | cons c tail =>
          rw [hOld] at hHead hRead
          obtain ⟨later, hLater⟩ := List.head?_eq_some_iff.1 hHead
          cases hLetter : isLetter c with
          | false =>
              exact readOpenTag_of_head? fun d hD => by
                rw [hHead] at hD
                cases hD
                exact hLetter
          | true =>
              have hStop := nextStep_of_incomplete hLetter hRead
              have hSame := hStay.1 hNone '<' more hText
              rw [hOld, hStop, hLater] at hSame
              rw [hLater]
              exact incomplete_of_nextStep hLetter (hSame trivial)

section
variable {piece : List Char} (hNoEnd : '>' ∉ piece) (hLast : piece.getLast? = some '"')
  {pass : Pass} {rawText : Option (List Char)} {rest : List Char} {tokens : List Token}
  (tail : Scans pass rawText rest tokens dropped)
  (hPut : PutInto piece (tokens.flatMap Token.source ++ dropped)
    (rewriteTags write tokens ++ dropped))
include tail hPut

include hNoEnd hLast in
/-- Where the first pass stops at markup that the last one reads, it stops with pieces put in as long
as no beginning of a tag ends. -/
theorem Scans.stop_again {c : Char} {more : List Char} {content : Content}
    {next : Option (List Char)} (hStop : nextStep .first none c (more ++ rest) = .stop)
    (hStep : nextStep .last none c (more ++ rest) = .token content more next)
    (hTag : c = '<' → readOpenTag (more ++ rest) = .incomplete →
      readOpenTag (more ++ (rewriteTags write tokens ++ dropped)) = .incomplete) :
    nextStep .first none c (more ++ (rewriteTags write tokens ++ dropped)) =
      nextStep .first none c (more ++ rest) := by
  obtain ⟨-, rfl, hUnfinished⟩ := markup_of_stop hStop hStep
  by_cases hMem : '>' ∈ more ++ rest
  · obtain ⟨hMore, -, -⟩ := unfinished_append hUnfinished hMem
    rw [tail.join] at hPut
    rw [hStop]
    exact markupStep_stop hPut hNoEnd hLast hMore (hTag rfl) hStop
  · rw [tail.rewriteTags_eq OpenTag.end_mem_source fun hRest =>
      hMem (List.mem_append_right _ hRest)]

/-- A last token is a last token with pieces put in behind it. -/
theorem Scans.lastToken_again (hOpens : ∀ tag, (write tag).head? = some '<') {c : Char}
    {more : List Char} {content : Content}
    (hStep : nextStep .first none c (more ++ rest) = .lastToken content more) :
    nextStep .first none c (more ++ (rewriteTags write tokens ++ dropped)) =
      nextStep .first none c (more ++ rest) := by
  by_cases hMem : '>' ∈ rest
  · obtain ⟨rfl, rfl, hHash, -⟩ := lastToken_eq hStep (List.mem_append_right _ hMem)
    subst hHash
    rw [tail.join] at hPut
    obtain ⟨hNumeral, hSemicolon⟩ := (@referenceStep_eq_lastToken_iff rest).1 hStep
    have hAgain : numericReference? (rewriteTags write tokens ++ dropped) = none := by
      refine numericReference?_eq_none (fun front left hPlain hJoin => ?_) hNumeral
      rw [← tail.join]
      exact rewriteTags_front tail.source_of_openTag hOpens hPlain hJoin
    exact (referenceStep_eq_lastToken_iff.2 ⟨hAgain, hPut.mem_of_mem hSemicolon⟩).trans hStep.symm
  · rw [tail.rewriteTags_eq OpenTag.end_mem_source hMem]

end

/-- As long as all that is put in are such pieces in tags, the first pass halts as before where the
beginnings of tags still do not end. -/
theorem Scans.haltsStay {piece : List Char} (hNoEnd : '>' ∉ piece)
    (hLast : piece.getLast? = some '"') (hOpens : ∀ tag, (write tag).head? = some '<')
    (hPut : ∀ tokens : List Token, (∀ token ∈ tokens, ∀ tag, token.content = .openTag tag →
      token.source = tag.source) →
        PutInto piece (tokens.flatMap Token.source ++ dropped)
          (rewriteTags write tokens ++ dropped))
    {pass : Pass} {rawText : Option (List Char)} {text : List Char} {tokens : List Token}
    (hScans : Scans pass rawText text tokens dropped)
    (hRemain : BeginningsRemain write dropped rawText tokens) :
    HaltsStay write dropped rawText tokens := by
  induction hScans with
  | nil => trivial
  | @token pass rawText next c content more rest dropped tokens step tail ih =>
      have hBehind := hRemain.2
      rw [rawTextBehind_of_nextStep step] at hBehind
      refine ⟨?_, by rw [rawTextBehind_of_nextStep step]; exact ih hPut hBehind⟩
      rintro rfl c' more' hText hHalts
      obtain ⟨rfl, rfl⟩ := List.cons.inj hText
      have hTag := hRemain.1 rfl more
      rw [tail.join] at hHalts hTag ⊢
      have hStop : nextStep .first none c (more ++ rest) = .stop := by
        by_contra hGoesOn
        have hFirst : nextStep .first none c (more ++ rest) = .token content more next := by
          cases pass with
          | first => exact step
          | last => rw [← nextStep_last hGoesOn, step]
        rw [hFirst] at hHalts
        exact hHalts
      cases pass with
      | first => simp [hStop] at step
      | last =>
          exact tail.stop_again hNoEnd hLast (hPut tokens tail.source_of_openTag) hStop step
            fun hC => hTag (by rw [hC])
  | @lastToken rawText c content more rest dropped tokens step tail ih =>
      obtain rfl := rawText_of_lastToken step
      have hBehind := hRemain.2
      rw [rawTextBehind_of_lastToken step] at hBehind
      refine ⟨?_, by rw [rawTextBehind_of_lastToken step]; exact ih hPut hBehind⟩
      rintro - c' more' hText -
      obtain ⟨rfl, rfl⟩ := List.cons.inj hText
      rw [tail.join]
      exact tail.lastToken_again (hPut tokens tail.source_of_openTag) hOpens step
  | stop step tail ih => exact ih hPut hRemain
  | @lastTokenEnd rawText c content more rest step =>
      refine haltsStay_of_unchanged (fun token hMem tag hContent => ?_) _ rawText
      exfalso
      rcases List.mem_cons.1 hMem with rfl | hMem
      · exact not_openTag_of_lastToken step tag hContent
      · exact not_openTag_of_mem_scanEnd hMem tag hContent
  | stopEnd step =>
      refine haltsStay_of_unchanged (fun token hMem tag hContent => ?_) _ _
      exact absurd hContent (not_openTag_of_mem_scanEnd hMem tag)

end

end AccessibleMarkup.Markup
