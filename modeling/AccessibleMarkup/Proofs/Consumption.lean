import AccessibleMarkup.Markup.Token.Scanner
import Mathlib.Data.List.Basic

/-! What one step of the tokeniser takes off the front of the text. A step never takes more than
there is, and only a step at `<` and a letter makes an opening tag. -/
namespace AccessibleMarkup.Markup

open AccessibleMarkup.Text

/-- The step takes a piece off the front of what follows the character it was given. -/
def Step.Consumes (rest : List Char) : Step → Prop
  | .token _ more _ => more <+: rest
  | .lastToken _ more => more <+: rest
  | .stop => True
  | .reject _ => True

/-- A mark is the text that it was found in, up to what follows it. -/
def Mark.Joins (mark : Mark) : Prop :=
  ∀ (text : List Char) (found : List Char × List Char),
    mark text = some found → found.1 ++ found.2 = text

theorem commentEnd_joins : Mark.Joins commentEnd := by
  intro text found hMark
  unfold commentEnd at hMark
  split at hMark
  · obtain ⟨inner, hInner, rfl⟩ := Option.map_eq_some_iff.1 hMark
    simp [blankThen_suffix hInner]
  · simp at hMark

theorem shortSectionEnd_joins : Mark.Joins shortSectionEnd := by
  intro text found hMark
  unfold shortSectionEnd at hMark
  split at hMark
  · obtain ⟨inner, hInner, rfl⟩ := Option.map_eq_some_iff.1 hMark
    simp [blankThen_suffix hInner]
  · simp at hMark

theorem longSectionEnd_joins : Mark.Joins longSectionEnd := by
  intro text found hMark
  unfold longSectionEnd at hMark
  split at hMark
  · obtain ⟨inner, hInner, hMark⟩ := Option.bind_eq_some_iff.1 hMark
    obtain ⟨outer, hOuter, hMark⟩ := Option.bind_eq_some_iff.1 hMark
    cases hMark
    simp [blankThen_suffix hOuter, blankThen_suffix hInner]
  · simp at hMark

/-- Where a text is split at a mark, it is what comes before the mark, the mark and what follows it,
and the mark was found behind all characters where it does not stand. -/
theorem exists_of_splitAtMark? {mark : Mark} (hJoins : mark.Joins) {text body found : List Char}
    (hSplit : splitAtMark? mark text = some (body, found)) :
    ∃ left, text = body ++ (found ++ left) ∧ mark (found ++ left) = some (found, left) ∧
      splitRun (fun c rest => (mark (c :: rest)).isNone) text = (body, found ++ left) := by
  unfold splitAtMark? at hSplit
  split at hSplit
  · obtain ⟨⟨inner, left⟩, hRead, hPair⟩ := Option.map_eq_some_iff.1 hSplit
    obtain ⟨rfl, rfl⟩ := Prod.mk.inj hPair
    have hJoin := hJoins _ _ hRead
    refine ⟨left, ?_, ?_, ?_⟩
    · rw [hJoin]
      exact (splitRun_append _ text).symm
    · rw [hJoin, hRead]
    · rw [hJoin]
      rfl
  · cases hSplit

/-- What comes before the mark and the mark itself are the front of the text. -/
theorem splitAtMark?_front {mark : Mark} (hJoins : mark.Joins) {text body found : List Char}
    (hSplit : splitAtMark? mark text = some (body, found)) : body ++ found <+: text := by
  obtain ⟨left, hText, -⟩ := exists_of_splitAtMark? hJoins hSplit
  exact ⟨left, by rw [hText, List.append_assoc]⟩

theorem splitAtFirst?_front {mark : Char} {text before rest : List Char}
    (hSplit : splitAtFirst? mark text = some (before, rest)) : before ++ [mark] <+: text :=
  ⟨rest, by rw [splitAtFirst?_eq_some hSplit]; simp⟩

theorem splitRun_front (keep : RunTest) (text : List Char) : (splitRun keep text).1 <+: text :=
  ⟨_, splitRun_append keep text⟩

/-- Markup that does not end takes up a piece of the text, if it makes a token at all. -/
theorem unfinished_consumes (pass : Pass) (rest : List Char) :
    (unfinished pass rest).Consumes rest := by
  cases pass with
  | first => trivial
  | last =>
      unfold unfinished
      simp only
      split
      · rename_i hEnd
        exact splitAtFirst?_front hEnd
      · split
        · rename_i hOpen
          exact (List.prefix_append _ _).trans (splitAtFirst?_front hOpen)
        · exact List.nil_prefix

theorem openTagStep_consumes (pass : Pass) (rest : List Char) :
    (openTagStep pass rest).Consumes rest := by
  rw [openTagStep_eq]
  split
  · rename_i tag behind hRead
    exact ⟨behind, sourceTail_append_of_readOpenTag hRead⟩
  · rename_i name hRead
    unfold readOpenTag at hRead
    split at hRead
    · simp at hRead
    · rename_i found behind hName
      simp only at hRead
      split at hRead <;> simp only [reduceCtorEq, TagReading.broken.injEq] at hRead
      subst hRead
      exact ⟨behind, append_of_readTagName? hName⟩
  · exact unfinished_consumes pass rest

theorem endTagStep_consumes (pass : Pass) (text : List Char) :
    (endTagStep pass ('/' :: text) text).Consumes ('/' :: text) := by
  unfold endTagStep
  split
  · exact unfinished_consumes pass _
  · rename_i body behind hEnd
    have hMore : '/' :: body ++ ['>'] <+: '/' :: text := by
      simpa using splitAtFirst?_front hEnd
    simp only
    split
    · exact hMore
    · split
      · exact hMore
      · split <;> exact hMore

/-- Whatever a marked section is called, it ends at one of two marks. -/
theorem eq_of_sectionMark {key : List Char} {mark : Mark}
    (hMark : (if longSections.contains key then some longSectionEnd
      else if shortSections.contains key then some shortSectionEnd else none) = some mark) :
    mark = longSectionEnd ∨ mark = shortSectionEnd := by
  split at hMark
  · exact .inl (Option.some.inj hMark).symm
  · split at hMark
    · exact .inr (Option.some.inj hMark).symm
    · cases hMark

/-- A marked section takes up all from its beginning to its mark. -/
theorem sectionStep_consumes (pass : Pass) (text : List Char) :
    (sectionStep pass ('!' :: '[' :: text) text).Consumes ('!' :: '[' :: text) := by
  unfold sectionStep
  split
  · exact unfinished_consumes pass _
  · rename_i c tail
    split
    · trivial
    · simp only
      split
      · exact unfinished_consumes pass _
      · split
        · trivial
        · rename_i mark hMark
          have hJoins : mark.Joins := by
            rcases eq_of_sectionMark hMark with rfl | rfl
            · exact longSectionEnd_joins
            · exact shortSectionEnd_joins
          split
          · rename_i body found hSplit
            simpa [Step.Consumes] using splitAtMark?_front hJoins hSplit
          · exact unfinished_consumes pass _

/-- Every kind of markup takes a piece off the front of the text behind its `<`. -/
theorem markupStep_consumes (pass : Pass) (rest : List Char) :
    (markupStep pass rest).Consumes rest := by
  unfold markupStep
  split
  · trivial
  · exact endTagStep_consumes pass _
  · split
    · rename_i body found hSplit
      simpa [Step.Consumes] using splitAtMark?_front commentEnd_joins hSplit
    · exact unfinished_consumes pass _
  · split
    · rename_i body behind hSplit
      simpa [Step.Consumes] using splitAtFirst?_front hSplit
    · exact unfinished_consumes pass _
  · exact sectionStep_consumes pass _
  · rename_i text _ _
    split
    · split
      · rename_i body behind hSplit
        have hBody := splitAtFirst?_front hSplit
        have hText : text.take 7 ++ (body ++ ['>']) <+: text := by
          conv_rhs => rw [← List.take_append_drop 7 text]
          exact (List.prefix_append_right_inj _).2 hBody
        simpa [Step.Consumes] using hText
      · exact unfinished_consumes pass _
    · split
      · rename_i body behind hSplit
        simpa [Step.Consumes] using splitAtFirst?_front hSplit
      · exact unfinished_consumes pass _
  · split
    · exact openTagStep_consumes pass _
    · exact List.nil_prefix

theorem Numeral.source_front {text : List Char} {numeral : Numeral}
    (hRead : Numeral.read? text = some numeral) : numeral.source <+: text := by
  unfold Numeral.read? at hRead
  split at hRead
  · simp at hRead
  · split at hRead
    · split at hRead
      · simp at hRead
      · cases hRead
        exact (List.prefix_cons_inj _).2 (splitRun_front _ _)
    · split at hRead
      · simp at hRead
      · cases hRead
        exact splitRun_front _ _

/-- The number of a reference is a numeral. -/
theorem read?_of_numericReference? {text : List Char} {numeral : Numeral}
    (hNumeral : numericReference? text = some numeral) : Numeral.read? text = some numeral := by
  unfold numericReference? at hNumeral
  split at hNumeral
  · simp at hNumeral
  · rename_i found hFound
    split at hNumeral
    · simp at hNumeral
    · split at hNumeral
      · simp at hNumeral
      · cases hNumeral
        exact hFound

theorem semicolon_front (text : List Char) : semicolon text <+: text := by
  unfold semicolon
  split
  · rename_i hHead
    obtain ⟨tail, rfl⟩ := List.head?_eq_some_iff.1 hHead
    exact ⟨tail, rfl⟩
  · exact List.nil_prefix

/-- A piece at the front and the semicolon behind it are a piece at the front. -/
theorem append_semicolon_front {piece text : List Char} (hPiece : piece <+: text) :
    piece ++ semicolon (text.drop piece.length) <+: text := by
  obtain ⟨tail, rfl⟩ := hPiece
  simpa using semicolon_front tail

/-- The name of a reference stands at the front of the text, also where it is cut at the last hyphen
or point. -/
theorem referenceName?_front {text name : List Char} (hName : referenceName? text = some name) :
    name <+: text := by
  unfold referenceName? at hName
  split at hName
  · simp at hName
  · rename_i c rest
    split at hName
    · have hRun := splitRun_front (fun c _ => continuesReference c) rest
      split at hName
      · rename_i run behind tail hSplit
        rw [hSplit] at hRun
        cases hName
        exact (List.prefix_cons_inj c).2 hRun
      · rename_i run hSplit
        rw [hSplit] at hRun
        split at hName
        · simp at hName
        · rename_i mark front hFront
          cases hName
          have hSuffix : front <:+ run.reverse :=
            (List.suffix_cons mark front).trans (hFront ▸ List.dropWhile_suffix _)
          have hPrefix : front.reverse <+: run := by simpa using List.reverse_prefix.2 hSuffix
          exact (List.prefix_cons_inj c).2 (hPrefix.trans hRun)
    · simp at hName

/-- A character reference takes a piece off the front of the text behind its ampersand. -/
theorem referenceStep_consumes (pass : Pass) (rest : List Char) :
    (referenceStep pass rest).Consumes rest := by
  unfold referenceStep
  split
  · trivial
  · rename_i text
    split
    · rename_i numeral hNumeral
      exact (List.prefix_cons_inj '#').2
        (append_semicolon_front (Numeral.source_front (read?_of_numericReference? hNumeral)))
    · split
      · exact ⟨text, rfl⟩
      · trivial
  · rename_i c behind _
    split
    · split
      · rename_i name hName
        exact append_semicolon_front (referenceName?_front hName)
      · split
        · exact List.nil_prefix
        · trivial
    · exact List.nil_prefix

/-- The body of a script is taken in pieces off the front of the text. -/
theorem rawTextStep_consumes (name : List Char) (c : Char) (rest : List Char) :
    (rawTextStep name c rest).Consumes rest := by
  unfold rawTextStep
  split
  · split
    · trivial
    · rename_i slash text _
      split
      · trivial
      · rename_i body behind hEnd
        have hMore : slash :: body ++ ['>'] <+: slash :: text := by
          simpa using splitAtFirst?_front hEnd
        simp only
        split
        · split <;> exact hMore
        · exact hMore
  · have hRun := splitRun_front (fun c rest => !looksLikeEndOf name (c :: rest)) rest
    split
    · trivial
    · rename_i more behind _ hSplit
      rw [hSplit] at hRun
      exact hRun

/-- Every token is text from the front, and the next step begins where it ends. -/
theorem nextStep_consumes (pass : Pass) (rawText : Option (List Char)) (c : Char)
    (rest : List Char) : (nextStep pass rawText c rest).Consumes rest := by
  unfold nextStep
  split
  · exact rawTextStep_consumes _ c rest
  · split
    · exact markupStep_consumes pass rest
    · split
      · exact referenceStep_consumes pass rest
      · exact splitRun_front _ rest

/-- The step makes an opening tag only of what is read as one, behind a `<`. Only such a step begins
raw text. -/
def Step.OpensAt (rawText : Option (List Char)) (c : Char) (rest : List Char) : Step → Prop
  | .token (.openTag tag) more next =>
    rawText = none ∧ c = '<' ∧ more = tag.sourceTail ∧
      next = (if hasRawBody (lowercase tag.name) && !tag.selfClosed then
        some (lowercase tag.name) else none) ∧
      ∃ behind, readOpenTag rest = .complete tag behind
  | .token _ _ next => next = none ∨ next = rawText
  | .lastToken (.openTag _) _ => False
  | _ => True

theorem unfinished_opensAt (pass : Pass) (rest : List Char) :
    (unfinished pass rest).OpensAt none '<' rest := by
  unfold unfinished
  split
  · trivial
  · split
    · exact .inl rfl
    · split <;> exact .inl rfl

theorem openTagStep_opensAt (pass : Pass) (rest : List Char) :
    (openTagStep pass rest).OpensAt none '<' rest := by
  rw [openTagStep_eq]
  split
  · rename_i tag behind hRead
    exact ⟨rfl, rfl, rfl, rfl, behind, hRead⟩
  · exact .inl rfl
  · exact unfinished_opensAt pass rest

/-- Of all markup, only what is read as an opening tag makes the token of one. -/
theorem markupStep_opensAt (pass : Pass) (rest : List Char) :
    (markupStep pass rest).OpensAt none '<' rest := by
  unfold markupStep
  split
  · trivial
  · unfold endTagStep
    split
    · exact unfinished_opensAt pass _
    · simp only
      split
      · exact .inl rfl
      · split
        · exact .inl rfl
        · split <;> exact .inl rfl
  · split
    · exact .inl rfl
    · exact unfinished_opensAt pass _
  · split
    · exact .inl rfl
    · exact unfinished_opensAt pass _
  · unfold sectionStep
    split
    · exact unfinished_opensAt pass _
    · split
      · trivial
      · simp only
        split
        · exact unfinished_opensAt pass _
        · split
          · trivial
          · split
            · exact .inl rfl
            · exact unfinished_opensAt pass _
  · split
    · split
      · exact .inl rfl
      · exact unfinished_opensAt pass _
    · split
      · exact .inl rfl
      · exact unfinished_opensAt pass _
  · split
    · exact openTagStep_opensAt pass _
    · exact .inl rfl

/-- In either pass and inside raw text or outside of it, only what is read as an opening tag makes
the token of one. -/
theorem nextStep_opensAt (pass : Pass) (rawText : Option (List Char)) (c : Char)
    (rest : List Char) : (nextStep pass rawText c rest).OpensAt rawText c rest := by
  unfold nextStep
  split
  · unfold rawTextStep
    split
    · split
      · trivial
      · split
        · trivial
        · simp only
          split
          · split
            · exact .inl rfl
            · exact .inr rfl
          · exact .inr rfl
    · split
      · trivial
      · exact .inr rfl
  · split
    · rename_i hOpen
      subst hOpen
      exact markupStep_opensAt pass rest
    · split
      · unfold referenceStep
        split
        · trivial
        · split
          · exact .inl rfl
          · split <;> trivial
        · split
          · split
            · exact .inl rfl
            · split <;> trivial
          · exact .inl rfl
      · exact .inl rfl

section
variable {pass : Pass} {rawText next : Option (List Char)} {c : Char} {content : Content}
  {more rest : List Char}

/-- A step that takes a tag reads it, outside of raw text and up to where the tag ends. -/
theorem openTag_of_nextStep {tag : OpenTag}
    (hStep : nextStep pass rawText c (more ++ rest) = .token (.openTag tag) more next) :
    rawText = none ∧ c = '<' ∧ more = tag.sourceTail ∧
      next = (if hasRawBody (lowercase tag.name) && !tag.selfClosed then
        some (lowercase tag.name) else none) ∧
      readOpenTag (tag.sourceTail ++ rest) = .complete tag rest := by
  have hOpens := nextStep_opensAt pass rawText c (more ++ rest)
  rw [hStep] at hOpens
  obtain ⟨hPlain, hC, rfl, hNext, behind, hRead⟩ := hOpens
  obtain rfl := List.append_cancel_left (sourceTail_append_of_readOpenTag hRead)
  exact ⟨hPlain, hC, rfl, hNext, hRead⟩

/-- Raw text holds no tag. -/
theorem not_openTag_of_rawText {name : List Char}
    (hStep : nextStep pass (some name) c rest = .token content more next) (tag : OpenTag) :
    content ≠ .openTag tag := by
  rintro rfl
  have hOpens := nextStep_opensAt pass (some name) c rest
  rw [hStep] at hOpens
  cases hOpens.1

/-- The last token of a pass is no tag. -/
theorem not_openTag_of_lastToken
    (hStep : nextStep pass rawText c rest = .lastToken content more) (tag : OpenTag) :
    content ≠ .openTag tag := by
  rintro rfl
  have hOpens := nextStep_opensAt pass rawText c rest
  rw [hStep] at hOpens
  exact hOpens

/-- Raw text has no last token. -/
theorem rawText_of_lastToken
    (hStep : nextStep pass rawText c rest = .lastToken content more) : rawText = none := by
  cases rawText with
  | none => rfl
  | some name =>
      simp only [nextStep, rawTextStep] at hStep
      repeat' split at hStep
      all_goals simp at hStep

/-- What holds of the names that raw text may have holds of the name that a step leads to. -/
theorem forall_rawText_of_nextStep {holds : List Char → Prop}
    (hBody : ∀ name, hasRawBody name = true → holds name)
    (hStep : nextStep pass rawText c rest = .token content more next)
    (hRaw : ∀ name, rawText = some name → holds name) : ∀ name, next = some name → holds name := by
  intro name hName
  have hOpens := nextStep_opensAt pass rawText c rest
  rw [hStep] at hOpens
  cases content with
  | openTag tag =>
      obtain ⟨-, -, -, rfl, -⟩ := hOpens
      split at hName
      · next hRawBody =>
          cases hName
          exact hBody _ (Bool.and_eq_true_iff.1 hRawBody).1
      · cases hName
  | _ =>
      rcases hOpens with rfl | rfl
      · cases hName
      · exact hRaw name hName

end

end AccessibleMarkup.Markup
