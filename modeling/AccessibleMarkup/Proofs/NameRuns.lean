import AccessibleMarkup.Proofs.Halts
import AccessibleMarkup.Proofs.Openings
import AccessibleMarkup.Proofs.TagAttributes

/-! Where names of tags begin. Anything may stand in the name of a tag, a `<` too, but the tokeniser
begins no tag in the middle of what could be the name of one: where a name could go on, it either
stands within a tag already or there is no tag to come. -/
namespace AccessibleMarkup.Markup

open AccessibleMarkup.Text

theorem IsTagName.append {name more : List Char} (hName : IsTagName name)
    (hMore : ∀ c ∈ more, continuesTagName c = true) : IsTagName (name ++ more) := by
  cases name with
  | nil => exact hName.elim
  | cons c name => exact ⟨hName.1, List.forall_mem_append.2 ⟨hName.2, hMore⟩⟩

/-- The front of a name is a name too. -/
theorem IsTagName.of_prefix {name whole : List Char} (hWhole : IsTagName whole)
    (hFront : name <+: whole) (hNonempty : name ≠ []) : IsTagName name := by
  obtain ⟨more, rfl⟩ := hFront
  cases name with
  | nil => exact absurd rfl hNonempty
  | cons c name => exact ⟨hWhole.1, fun d hMem => hWhole.2 d (List.mem_append_left _ hMem)⟩

/-- What could be the name of a tag begins in the first text and goes on into the second one. -/
def NameGoesOn (before text : List Char) : Prop :=
  ∃ front name c rest, before = front ++ '<' :: name ∧ text = c :: rest ∧ IsTagName (name ++ [c])

/-- A name that goes on behind a piece of text without a `<` goes on into that piece. -/
theorem NameGoesOn.of_append {before text : List Char} {c : Char} {more : List Char}
    (hGoesOn : NameGoesOn (before ++ c :: more) text) (hOpen : '<' ∉ c :: more) :
    NameGoesOn before (c :: (more ++ text)) := by
  obtain ⟨front, name, d, rest, hJoin, rfl, hName⟩ := hGoesOn
  rcases List.append_eq_append_iff.1 hJoin with ⟨left, -, hMore⟩ | ⟨left, hBefore, hMore⟩
  · rw [hMore] at hOpen
    simp at hOpen
  · cases left with
    | nil =>
        have hC : '<' = c := (List.cons.inj hMore).1
        exact absurd (hC ▸ List.mem_cons_self ..) hOpen
    | cons e left =>
        obtain ⟨rfl, hRest⟩ := List.cons.inj hMore
        rw [hRest] at hName
        exact ⟨front, left, c, more ++ d :: rest, hBefore, rfl,
          hName.of_prefix ⟨more ++ [d], by simp⟩ (by simp)⟩

/-- No name goes on behind the end of a tag. -/
theorem not_nameGoesOn_end (before text : List Char) : ¬NameGoesOn (before ++ ['>']) text := by
  rintro ⟨front, name, c, rest, hJoin, -, hName⟩
  rcases name.eq_nil_or_concat with rfl | ⟨name, last, rfl⟩
  · simp at hJoin
  · rw [List.concat_eq_append, ← List.cons_append, ← List.append_assoc] at hJoin
    obtain ⟨-, hLast⟩ := List.append_inj' hJoin rfl
    have hEnd := hName.continues last (by simp)
    rw [← (List.cons.inj hLast).1] at hEnd
    exact absurd hEnd (by decide)

/-- No name goes on into what cannot continue one. -/
theorem not_nameGoesOn_of_stops {before text : List Char} (hStops : Stops continuesTagName text) :
    ¬NameGoesOn before text := by
  rintro ⟨front, name, c, rest, -, rfl, hName⟩
  have hC : continuesTagName c = false := hStops
  rw [hName.continues c (by simp)] at hC
  simp at hC

/-- Where markup is read off the front of the text behind its `<`, it ends with `>`, or there is no
further `>`, or no name goes on behind it: it is a `<` that begins none, or a whole name. -/
inductive EndsName (more rest : List Char) : Prop where
  | closed (front : List Char) (ends : more = front ++ ['>']) : EndsName more rest
  | last (noEnd : '>' ∉ rest) : EndsName more rest
  | noName (sign : more = []) (begins : ∀ c ∈ rest.head?, isLetter c = false) : EndsName more rest
  | name (stops : Stops continuesTagName rest) : EndsName more rest

/-- A name that goes on behind markup begins before it, unless no `>` follows. -/
theorem EndsName.nameGoesOn {before more rest : List Char} (hEnds : EndsName more rest)
    (hGoesOn : NameGoesOn (before ++ '<' :: more) rest) :
    NameGoesOn before ('<' :: (more ++ rest)) ∨ '>' ∉ rest := by
  cases hEnds with
  | closed front ends =>
      rw [ends, ← List.cons_append, ← List.append_assoc] at hGoesOn
      exact absurd hGoesOn (not_nameGoesOn_end _ _)
  | last noEnd => exact .inr noEnd
  | noName sign begins =>
      subst sign
      obtain ⟨front, name, c, tail, hJoin, rfl, hName⟩ := hGoesOn
      left
      rcases name.eq_nil_or_concat with rfl | ⟨name, last, rfl⟩
      · have hLetter := begins c rfl
        rw [hName.1] at hLetter
        simp at hLetter
      · rw [List.concat_eq_append, ← List.cons_append, ← List.append_assoc] at hJoin
        obtain ⟨rfl, hLast⟩ := List.append_inj' hJoin rfl
        obtain rfl := (List.cons.inj hLast).1
        rw [List.concat_eq_append] at hName
        exact ⟨front, name, '<', c :: tail, rfl, rfl,
          hName.of_prefix (List.prefix_append _ _) (by simp)⟩
  | name stops => exact absurd hGoesOn (not_nameGoesOn_of_stops stops)

/-- The step ends names where it makes a token of markup. -/
def Step.EndsNames (text : List Char) : Step → Prop
  | .token _ more _ => ∀ rest, text = more ++ rest → EndsName more rest
  | _ => True

theorem unfinished_endsNames (pass : Pass) (rest : List Char) :
    (unfinished pass rest).EndsNames rest := by
  unfold unfinished
  split
  · trivial
  · split
    · exact fun _ _ => .closed _ rfl
    · rename_i hNone
      have hEnd := splitAtFirst?_eq_none_iff.1 hNone
      have hLast {more later : List Char} (hText : rest = more ++ later) : '>' ∉ later :=
        fun hMem => hEnd (by simp [hText, hMem])
      split <;> exact fun _ hText => .last (hLast hText)

/-- A tag that was read ends with `>`, and a broken one is a whole name. -/
theorem openTagStep_endsNames (pass : Pass) (rest : List Char) :
    (openTagStep pass rest).EndsNames rest := by
  rw [openTagStep_eq]
  split
  · rename_i tag behind hRead
    refine fun _ _ => .closed (tag.name ++ (tag.gap ++ (tag.attributeText ++ tag.slash))) ?_
    simp [OpenTag.sourceTail_eq_append, OpenTag.ending_eq]
  · rename_i name hRead
    obtain ⟨-, -, later, rfl⟩ := readOpenTag_eq_broken_iff.1 hRead
    refine fun left hText => .name ?_
    rw [← List.append_cancel_left hText]
    rfl
  · exact unfinished_endsNames pass rest

/-- What a search for a mark finds ends with `>`. -/
theorem splitAtMark?_ends {mark : Mark} (hMark : mark.HoldsNoQuote) {text : List Char}
    {found : List Char × List Char} (hSplit : splitAtMark? mark text = some found) :
    ∃ front, found.2 = front ++ ['>'] := by
  unfold splitAtMark? at hSplit
  split at hSplit
  · obtain ⟨inner, hInner, rfl⟩ := Option.map_eq_some_iff.1 hSplit
    obtain ⟨front, hFront, -⟩ := hMark _ _ hInner
    exact ⟨front, hFront⟩
  · simp at hSplit

theorem endTagStep_endsNames (pass : Pass) (rest text : List Char) :
    (endTagStep pass rest text).EndsNames rest := by
  unfold endTagStep
  split
  · exact unfinished_endsNames pass rest
  · have hClosed (body : List Char) {left : List Char} : EndsName ('/' :: body ++ ['>']) left :=
      .closed _ rfl
    simp only
    split
    · exact fun _ _ => hClosed _
    · split
      · exact fun _ _ => hClosed _
      · split <;> exact fun _ _ => hClosed _

/-- No name goes on behind a marked section. -/
theorem sectionStep_endsNames (pass : Pass) (rest text : List Char) :
    (sectionStep pass rest text).EndsNames rest := by
  unfold sectionStep
  split
  · exact unfinished_endsNames pass rest
  · split
    · trivial
    · simp only
      split
      · exact unfinished_endsNames pass rest
      · split
        · trivial
        · rename_i mark hMark
          split
          · rename_i body found hSplit
            have hEnds : mark.HoldsNoQuote := by
              rcases eq_of_sectionMark hMark with rfl | rfl
              · exact longSectionEnd_holdsNoQuote
              · exact shortSectionEnd_holdsNoQuote
            obtain ⟨front, hFront⟩ := splitAtMark?_ends hEnds hSplit
            simp only at hFront
            exact fun _ _ => .closed ('!' :: '[' :: body ++ front) (by simp [hFront])
          · exact unfinished_endsNames pass rest

/-- No name goes on behind any markup that is read as a token. -/
theorem markupStep_endsNames (pass : Pass) (rest : List Char) :
    (markupStep pass rest).EndsNames rest := by
  unfold markupStep
  split
  · trivial
  · exact endTagStep_endsNames pass _ _
  · split
    · rename_i body found hSplit
      obtain ⟨front, hFront⟩ := splitAtMark?_ends commentEnd_holdsNoQuote hSplit
      simp only at hFront
      exact fun _ _ => .closed ('!' :: '-' :: '-' :: body ++ front) (by simp [hFront])
    · exact unfinished_endsNames pass _
  · split
    · exact fun _ _ => .closed _ rfl
    · exact unfinished_endsNames pass _
  · exact sectionStep_endsNames pass _ _
  · split
    · split
      · exact fun _ _ => .closed _ rfl
      · exact unfinished_endsNames pass _
    · split
      · exact fun _ _ => .closed _ rfl
      · exact unfinished_endsNames pass _
  · rename_i c tail _ _ _ _ _
    split
    · exact openTagStep_endsNames pass _
    · rename_i hLetter
      refine fun left hText => .noName rfl ?_
      have hRest : c :: tail = left := hText
      rw [← hRest]
      simpa using hLetter

/-- The name of a reference is made of characters that references may have. -/
theorem continuesReference_of_referenceName? {text name : List Char}
    (hName : referenceName? text = some name) : ∀ c ∈ name, continuesReference c = true := by
  unfold referenceName? at hName
  split at hName
  · simp at hName
  · rename_i c rest
    split at hName
    · rename_i hLetter
      have hFirst : continuesReference c = true := by simp [continuesReference, hLetter]
      rcases hRun : splitRun (fun c _ => continuesReference c) rest with ⟨run, behind⟩
      obtain ⟨-, hContinues, -⟩ := splitRun_eq_iff.1 hRun
      rw [hRun] at hName
      cases behind with
      | cons d behind =>
          cases hName
          exact List.forall_mem_cons.2 ⟨hFirst, hContinues⟩
      | nil =>
          simp only at hName
          split at hName
          · simp at hName
          · rename_i mark front hFront
            cases hName
            refine List.forall_mem_cons.2 ⟨hFirst, fun d hMem => hContinues d ?_⟩
            have hSuffix : mark :: front <:+ run.reverse := hFront ▸ List.dropWhile_suffix _
            exact List.mem_reverse.1
              (hSuffix.subset (List.mem_cons_of_mem _ (List.mem_reverse.1 hMem)))
    · simp at hName

/-- A numeral is written with digits, behind a mark if they are hexadecimal. -/
theorem Numeral.of_mem_source {text : List Char} {numeral : Numeral}
    (hRead : Numeral.read? text = some numeral) {c : Char} (hMem : c ∈ numeral.source) :
    isHexDigit c = true ∨ c = 'x' ∨ c = 'X' := by
  rcases Numeral.read?_eq_some_iff.1 hRead with
    ⟨mark, digits, -, rfl, hMark, -, -, hDigits, -⟩ | ⟨digits, -, rfl, -, -, hDigits, -⟩
  · rcases List.mem_cons.1 hMem with rfl | hMem
    · exact .inr hMark
    · exact .inl (hDigits c hMem)
  · exact .inl (by simp [isHexDigit, hDigits c hMem])

theorem open_not_mem_semicolon (text : List Char) : '<' ∉ semicolon text := by
  unfold semicolon
  split <;> simp

/-- No token that begins with another character holds a `<`, unless it stands in raw text. -/
theorem open_not_mem_of_nextStep {pass : Pass} {c : Char} {rest more : List Char}
    {content : Content} {next : Option (List Char)} (hMarkup : c ≠ '<')
    (hStep : nextStep pass none c rest = .token content more next) : '<' ∉ c :: more := by
  suffices hMore : '<' ∉ more by simp [hMarkup.symm, hMore]
  simp only [nextStep, if_neg hMarkup] at hStep
  split at hStep
  · unfold referenceStep at hStep
    split at hStep
    · simp at hStep
    · split at hStep
      · rename_i numeral hNumeral
        cases hStep
        have hSource : '<' ∉ numeral.source := fun hMem =>
          absurd (Numeral.of_mem_source (read?_of_numericReference? hNumeral) hMem) (by decide)
        simp [hSource, open_not_mem_semicolon]
      · split at hStep <;> simp at hStep
    · split at hStep
      · split at hStep
        · rename_i name hName
          cases hStep
          have hSource : '<' ∉ name := fun hMem =>
            absurd (continuesReference_of_referenceName? hName '<' hMem) (by decide)
          simp [hSource, open_not_mem_semicolon]
        · split at hStep <;> simp at hStep
      · cases hStep
        simp
  · rcases hRun : splitRun (fun c _ => c != '<' && c != '&') rest with ⟨run, behind⟩
    obtain ⟨-, hText, -⟩ := splitRun_eq_iff.1 hRun
    rw [textStep, hRun] at hStep
    cases hStep
    exact fun hMem => absurd (hText '<' hMem) (by decide)

/-- What ends raw text is an end tag. -/
theorem ends_of_rawTextStep {pass : Pass} {name : List Char} {c : Char} {rest more : List Char}
    {content : Content} (hStep : nextStep pass (some name) c rest = .token content more none) :
    ∃ front, more = front ++ ['>'] := by
  simp only [nextStep, rawTextStep] at hStep
  split at hStep
  · split at hStep
    · simp at hStep
    · split at hStep
      · simp at hStep
      · split at hStep
        · split at hStep
          · cases hStep
            exact ⟨_, rfl⟩
          · simp at hStep
        · simp at hStep
  · split at hStep <;> simp at hStep

/-- Outside raw text, no name goes on into the text as long as a tag may come. -/
def NamesDone (rawText : Option (List Char)) (before text : List Char) : Prop :=
  rawText = none → NameGoesOn before text → '>' ∉ text

/-- A step keeps names done. -/
theorem NamesDone.step {pass : Pass} {rawText next : Option (List Char)} {c : Char}
    {content : Content} {more rest before : List Char}
    (hDone : NamesDone rawText before (c :: (more ++ rest)))
    (hStep : nextStep pass rawText c (more ++ rest) = .token content more next) :
    NamesDone next (before ++ c :: more) rest := by
  rintro rfl hGoesOn
  have hLater : '>' ∉ c :: (more ++ rest) → '>' ∉ rest := fun hEnd hMem => hEnd (by simp [hMem])
  cases rawText with
  | some name =>
      obtain ⟨front, rfl⟩ := ends_of_rawTextStep hStep
      rw [← List.cons_append, ← List.append_assoc] at hGoesOn
      exact absurd hGoesOn (not_nameGoesOn_end _ _)
  | none =>
      by_cases hMarkup : c = '<'
      · subst hMarkup
        have hEnds := markupStep_endsNames pass (more ++ rest)
        have hMarkupStep : markupStep pass (more ++ rest) = .token content more none := hStep
        rw [hMarkupStep] at hEnds
        rcases (hEnds rest rfl).nameGoesOn hGoesOn with hBefore | hEnd
        · exact hLater (hDone rfl hBefore)
        · exact hEnd
      · exact hLater (hDone rfl (hGoesOn.of_append (open_not_mem_of_nextStep hMarkup hStep)))

/-- No opening tag that the tokeniser reads begins in what could be the name of a tag. -/
theorem Scans.not_isTagName {pass : Pass} {rawText : Option (List Char)}
    {text dropped : List Char} {tokens : List Token}
    (scans : Scans pass rawText text tokens dropped) {before : List Char}
    (hDone : NamesDone rawText before text) :
    ∀ opening ∈ openings before tokens, ∀ front name,
      opening.before = front ++ '<' :: name → ¬IsTagName name := by
  induction scans generalizing before with
  | nil => simp
  | @token pass rawText next c content more rest dropped tokens step tail ih =>
      have hTail := ih (hDone.step step)
      rcases content.openTag_or_other with ⟨tag, rfl⟩ | hOther
      · rw [openings_cons_openTag _ _ rfl]
        refine List.forall_mem_cons.2 ⟨?_, hTail⟩
        intro front name hBefore hName
        obtain ⟨hPlain, rfl, rfl, -⟩ := openTag_of_nextStep step
        have hGoesOn : NameGoesOn before ('<' :: (tag.sourceTail ++ rest)) :=
          ⟨front, name, '<', _, hBefore, rfl, hName.append (by simp [continuesTagName])⟩
        refine hDone hPlain hGoesOn ?_
        simp [OpenTag.sourceTail_eq_append, OpenTag.ending_eq]
      · rw [openings_cons_other _ _ hOther]
        exact hTail
  | @lastToken rawText c content more rest dropped tokens step tail ih =>
      rw [openings_cons_other _ _ (not_openTag_of_lastToken step)]
      refine ih fun hPlain hGoesOn hMem => ?_
      obtain ⟨rfl, -, rfl, -⟩ := lastToken_eq step (List.mem_append_right more hMem)
      exact hDone hPlain (hGoesOn.of_append (by simp)) (by simp [hMem])
  | stop step tail ih => exact ih hDone
  | lastTokenEnd step =>
      rw [openings_cons_other _ _ (not_openTag_of_lastToken step),
        openings_eq_nil fun _ => not_openTag_of_mem_scanEnd]
      simp
  | stopEnd step =>
      rw [openings_eq_nil fun _ => not_openTag_of_mem_scanEnd]
      simp

end AccessibleMarkup.Markup
