import AccessibleMarkup.Proofs.Stability

/-! Where the first pass halts, and what the last pass does there. Both take the same tokens, except
that the last pass goes on behind markup that does not end and takes it as text. So what the last
pass reads hangs on more than the first pass does: on whether markup still does not end. -/
namespace AccessibleMarkup.Markup

open AccessibleMarkup.Text

/-- The pass does not go on behind this step. -/
def Step.Halts : Step → Prop
  | .lastToken _ _ => True
  | .stop => True
  | _ => False

/-- The step of the last pass in the place of that of the first one, for markup behind its `<`. -/
def Step.orUnfinished (rest : List Char) : Step → Step
  | .stop => unfinished .last rest
  | step => step

/-- For opening tags, the passes differ only where the first one stops. -/
theorem openTagStep_last (rest : List Char) :
    openTagStep .last rest = (openTagStep .first rest).orUnfinished rest := by
  rw [openTagStep_eq, openTagStep_eq]
  split <;> rfl

/-- For end tags, the passes differ only where the first one stops. -/
theorem endTagStep_last (rest text : List Char) :
    endTagStep .last rest text = (endTagStep .first rest text).orUnfinished rest := by
  unfold endTagStep
  split
  · rfl
  · simp only
    split
    · rfl
    · split
      · rfl
      · split <;> rfl

/-- For marked sections, the passes differ only where the first one stops. -/
theorem sectionStep_last (rest text : List Char) :
    sectionStep .last rest text = (sectionStep .first rest text).orUnfinished rest := by
  unfold sectionStep
  split
  · rfl
  · split
    · rfl
    · simp only
      split
      · rfl
      · split
        · rfl
        · split <;> rfl

/-- The last pass takes markup that does not end as text, and all other markup as the first pass
does. -/
theorem markupStep_last {rest : List Char} (hNonempty : rest ≠ []) :
    markupStep .last rest = (markupStep .first rest).orUnfinished rest := by
  unfold markupStep
  split
  · exact absurd rfl hNonempty
  · exact endTagStep_last _ _
  · split <;> rfl
  · split <;> rfl
  · exact sectionStep_last _ _
  · split
    · split <;> rfl
    · split <;> rfl
  · split
    · exact openTagStep_last _
    · rfl

/-- For character references, the passes differ only where the first one stops. -/
theorem referenceStep_last {rest : List Char} (hGoesOn : referenceStep .first rest ≠ .stop) :
    referenceStep .last rest = referenceStep .first rest := by
  unfold referenceStep at hGoesOn ⊢
  split
  · rfl
  · rfl
  · split
    · split
      · rfl
      · simp_all
    · rfl

/-- Where the first pass does not stop, the last one does the same. -/
theorem nextStep_last {rawText : Option (List Char)} {c : Char} {rest : List Char}
    (hGoesOn : nextStep .first rawText c rest ≠ .stop) :
    nextStep .last rawText c rest = nextStep .first rawText c rest := by
  unfold nextStep at hGoesOn ⊢
  split
  · rfl
  · split
    · simp only at hGoesOn
      rename_i hOpen
      rw [if_pos hOpen] at hGoesOn
      have hNonempty : rest ≠ [] := by
        rintro rfl
        exact hGoesOn rfl
      rw [markupStep_last hNonempty]
      cases hStep : markupStep .first rest with
      | stop => exact absurd hStep hGoesOn
      | _ => rfl
    · split
      · rename_i hOpen hAmpersand
        simp only [if_neg hOpen, if_pos hAmpersand] at hGoesOn
        exact referenceStep_last hGoesOn
      · rfl

/-- What the last pass takes as text where the first one stops, it takes as text whatever follows
the `>` that ends the text. -/
theorem unfinished_append {more rest : List Char} {content : Content} {next : Option (List Char)}
    (hStep : unfinished .last (more ++ rest) = .token content more next)
    (hEnd : '>' ∈ more ++ rest) :
    '>' ∈ more ∧ content = .text ∧
      ∀ other, unfinished .last (more ++ other) = .token content more next := by
  simp only [unfinished] at hStep
  split at hStep
  · rename_i before behind hSplit
    cases hStep
    refine ⟨by simp, rfl, fun other => ?_⟩
    have hOther := splitAtFirst?_append hSplit other
    simp only [unfinished, List.append_assoc, List.singleton_append, hOther]
  · rename_i hNone
    exact absurd hEnd (splitAtFirst?_eq_none_iff.1 hNone)

/-- Markup that does not end is text for the last pass. -/
theorem unfinished_text {rest more : List Char} {content : Content} {next : Option (List Char)}
    (hStep : unfinished .last rest = .token content more next) : content = .text ∧ next = none := by
  simp only [unfinished] at hStep
  split at hStep
  · cases hStep
    exact ⟨rfl, rfl⟩
  · split at hStep <;> cases hStep <;> exact ⟨rfl, rfl⟩

/-- Only markup makes the first pass stop where the last one goes on. -/
theorem markup_of_stop {rawText next : Option (List Char)} {c : Char} {rest more : List Char}
    {content : Content} (hStop : nextStep .first rawText c rest = .stop)
    (hStep : nextStep .last rawText c rest = .token content more next) :
    rawText = none ∧ c = '<' ∧ unfinished .last rest = .token content more next := by
  unfold nextStep at hStop hStep
  split at hStop
  · simp_all
  · split at hStop
    · rename_i hOpen
      simp only [if_pos hOpen] at hStep
      have hNonempty : rest ≠ [] := by
        rintro rfl
        simp [markupStep] at hStep
      rw [markupStep_last hNonempty, hStop] at hStep
      exact ⟨rfl, hOpen, hStep⟩
    · rename_i hOpen
      simp only [if_neg hOpen] at hStep
      split at hStop
      · rename_i hAmpersand
        simp only [if_pos hAmpersand] at hStep
        exfalso
        unfold referenceStep at hStop hStep
        split at hStop
        · simp at hStep
        · split at hStop
          · simp at hStop
          · simp_all
        · split at hStop
          · split at hStop
            · simp at hStop
            · simp only at hStep
              split at hStep
              · split at hStep
                · simp_all
                · split at hStep <;> simp at hStep
              · simp_all
          · simp at hStop
      · simp [textStep] at hStop

/-- The text of a marked section is no running text, and neither is a section that does not end. -/
theorem sectionStep_ne_text {rest text more : List Char} {next : Option (List Char)} :
    sectionStep .first rest text ≠ .token .text more next := by
  unfold sectionStep
  split
  · simp [unfinished]
  · split
    · simp
    · simp only
      split
      · simp [unfinished]
      · split
        · simp
        · split <;> simp [unfinished]

/-- The first pass takes no end tag for text. -/
theorem endTagStep_ne_text {rest text more : List Char} {next : Option (List Char)} :
    endTagStep .first rest text ≠ .token .text more next := by
  unfold endTagStep
  split
  · simp [unfinished]
  · simp only
    split
    · simp
    · split
      · simp
      · split <;> simp

/-- The first pass takes no declaration for text. -/
theorem declarationStep_ne_text {text more : List Char} {next : Option (List Char)} :
    markupStep .first ('!' :: text) ≠ .token .text more next := by
  by_cases hSection : text.head? = some '['
  · obtain ⟨tail, rfl⟩ := List.head?_eq_some_iff.1 hSection
    exact sectionStep_ne_text
  · by_cases hComment : ['-', '-'] <+: text
    · obtain ⟨tail, rfl⟩ := hComment
      rw [List.cons_append, List.cons_append, List.nil_append, markupStep_comment]
      split <;> simp [unfinished]
    · rw [markupStep_declaration hSection hComment]
      split
      · split <;> simp [unfinished]
      · split <;> simp [unfinished]

/-- What the first pass takes as text behind a `<` does not reach the end of a tag. -/
theorem end_not_mem_of_markupStep {rest more : List Char} {next : Option (List Char)}
    (hStep : markupStep .first rest = .token .text more next) : '>' ∉ more := by
  cases rest with
  | nil => simp [markupStep] at hStep
  | cons c tail =>
      by_cases hSlash : c = '/'
      · subst hSlash
        exact absurd hStep endTagStep_ne_text
      by_cases hQuery : c = '?'
      · subst hQuery
        rw [markupStep_instruction] at hStep
        split at hStep <;> simp [unfinished] at hStep
      by_cases hBang : c = '!'
      · subst hBang
        exact absurd hStep declarationStep_ne_text
      rw [markupStep_other hSlash hQuery hBang] at hStep
      split at hStep
      · rw [openTagStep_eq] at hStep
        split at hStep
        · cases hStep
        · rename_i name hRead
          cases hStep
          obtain ⟨hName, -, -⟩ := readOpenTag_eq_broken_iff.1 hRead
          exact fun hMem => absurd (hName.continues _ hMem) (by decide)
        · simp [unfinished] at hStep
      · cases hStep
        simp

theorem orUnfinished_ne_lastToken {step : Step} {rest more : List Char} {content : Content}
    (hStep : step ≠ .lastToken content more) :
    step.orUnfinished rest ≠ .lastToken content more := by
  cases step with
  | stop =>
      simp only [Step.orUnfinished, unfinished]
      split
      · simp
      · split <;> simp
  | _ => exact hStep

/-- Markup is no last token: either pass goes on behind it or stops at it. -/
theorem markupStep_ne_lastToken {pass : Pass} {rest more : List Char} {content : Content} :
    markupStep pass rest ≠ .lastToken content more := by
  have hFirst : markupStep .first rest ≠ .lastToken content more := by
    unfold markupStep endTagStep sectionStep
    simp only [openTagStep_eq, unfinished]
    repeat' split
    all_goals simp
  cases pass with
  | first => exact hFirst
  | last =>
      by_cases hEmpty : rest = []
      · simp [hEmpty, markupStep]
      · rw [markupStep_last hEmpty]
        exact orUnfinished_ne_lastToken hFirst

/-- A last token with the end of a tag behind it is the beginning of a character reference without a
number. -/
theorem lastToken_eq {pass : Pass} {rawText : Option (List Char)} {c : Char} {rest more : List Char}
    {content : Content} (hStep : nextStep pass rawText c rest = .lastToken content more)
    (hEnd : '>' ∈ rest) :
    c = '&' ∧ content = .text ∧ more = ['#'] ∧ rest.head? = some '#' := by
  unfold nextStep at hStep
  split at hStep
  · simp only [rawTextStep] at hStep
    repeat' split at hStep
    all_goals simp at hStep
  · split at hStep
    · exact absurd hStep markupStep_ne_lastToken
    · split at hStep
      · rename_i hAmpersand
        refine ⟨hAmpersand, ?_⟩
        unfold referenceStep at hStep
        split at hStep
        · simp at hStep
        · split at hStep
          · simp at hStep
          · split at hStep
            · cases hStep
              exact ⟨rfl, rfl, rfl⟩
            · simp at hStep
        · rename_i d behind _
          split at hStep
          · rename_i hLetter
            split at hStep
            · simp at hStep
            · split at hStep
              · rename_i hLast
                exfalso
                simp only [Bool.and_eq_true, List.isEmpty_iff] at hLast
                rw [hLast.1, List.mem_singleton] at hEnd
                rw [← hEnd] at hLetter
                simp [isLetter] at hLetter
              · simp at hStep
          · simp at hStep
      · simp [textStep] at hStep

end AccessibleMarkup.Markup
