import AccessibleMarkup.Proofs.Marks
import AccessibleMarkup.Proofs.References
import AccessibleMarkup.Proofs.TagGrammar

/-! What a token depends on. Markup ends with a `>` of its own, so nothing behind it matters; text
and character references depend on the character that comes next. So the tokens of a text stay what
they are when the text behind them changes, unless it begins differently. -/
namespace AccessibleMarkup.Markup

open AccessibleMarkup.Text

theorem unfinished_first (rest : List Char) : unfinished .first rest = .stop := rfl

/-! Tokens of markup are the same whatever follows them; the kind of markup is seen at the front of
the token. -/

section
variable {text rest more : List Char} {content : Content} {next : Option (List Char)}

/-- An end tag is read whatever follows it. -/
theorem endTagStep_append
    (hStep : endTagStep .first ('/' :: text) text = .token content more next)
    (other : List Char) :
    ∃ later, more ++ other = '/' :: later ∧
      endTagStep .first ('/' :: later) later = .token content more next := by
  unfold endTagStep at hStep
  split at hStep
  · simp [unfinished_first] at hStep
  · rename_i body behind hSplit
    have hMore : more = '/' :: body ++ ['>'] := by
      simp only at hStep
      split at hStep
      · cases hStep
        rfl
      · split at hStep
        · cases hStep
          rfl
        · split at hStep <;> cases hStep <;> rfl
    refine ⟨body ++ '>' :: other, by simp [hMore], ?_⟩
    rw [endTagStep, splitAtFirst?_append hSplit other]
    exact hStep

theorem markupStep_comment (pass : Pass) (text : List Char) :
    markupStep pass ('!' :: '-' :: '-' :: text) =
      match splitAtMark? commentEnd text with
      | some (body, found) => .token (.comment body) ('!' :: '-' :: '-' :: body ++ found) none
      | none => unfinished pass ('!' :: '-' :: '-' :: text) := rfl

/-- A comment is read whatever follows it. -/
theorem commentStep_append
    (hStep : markupStep .first ('!' :: '-' :: '-' :: text) = .token content more next)
    (hText : more ++ rest = '!' :: '-' :: '-' :: text) (other : List Char) :
    markupStep .first (more ++ other) = .token content more next := by
  rw [markupStep_comment] at hStep
  split at hStep
  · rename_i body found hSplit
    cases hStep
    have hJoin : text = body ++ (found ++ rest) := by simpa using hText.symm
    rw [hJoin] at hSplit
    have hOther := splitAtMark?_append commentEnd_endsMarkup hSplit other
    simp only [List.cons_append, List.append_assoc, markupStep_comment, hOther]
  · simp [unfinished_first] at hStep

theorem markupStep_instruction (pass : Pass) (text : List Char) :
    markupStep pass ('?' :: text) =
      match splitAtFirst? '>' text with
      | some (body, _) => .token (.instruction body) ('?' :: body ++ ['>']) none
      | none => unfinished pass ('?' :: text) := rfl

/-- A processing instruction is read whatever follows it. -/
theorem instructionStep_append
    (hStep : markupStep .first ('?' :: text) = .token content more next) (other : List Char) :
    markupStep .first (more ++ other) = .token content more next := by
  rw [markupStep_instruction] at hStep
  split at hStep
  · rename_i body behind hSplit
    cases hStep
    have hOther := splitAtFirst?_append hSplit other
    simp only [List.cons_append, List.append_assoc, List.nil_append, markupStep_instruction, hOther]
  · simp [unfinished_first] at hStep

/-- A marked section is read whatever follows it. The character behind its name is not the end of
the section, so the end stands behind that. -/
theorem sectionStep_append
    (hStep : sectionStep .first ('!' :: '[' :: text) text = .token content more next)
    (hText : more ++ rest = '!' :: '[' :: text) (other : List Char) :
    ∃ later, more ++ other = '!' :: '[' :: later ∧
      sectionStep .first ('!' :: '[' :: later) later = .token content more next := by
  unfold sectionStep at hStep
  split at hStep
  · simp [unfinished_first] at hStep
  · rename_i c tail
    split at hStep
    · simp at hStep
    · rename_i hLetter
      simp only at hStep
      split at hStep
      · simp [unfinished_first] at hStep
      · rename_i hBehind
        split at hStep
        · simp at hStep
        · rename_i mark hMark
          have hEnds : mark.EndsMarkup := by
            rcases eq_of_sectionMark hMark with rfl | rfl
            · exact longSectionEnd_endsMarkup
            · exact shortSectionEnd_endsMarkup
          split at hStep
          · rename_i body found hSplit
            cases hStep
            have hJoin : c :: tail = body ++ (found ++ rest) := by simpa using hText.symm
            have hEnd : '>' ∈ found := by
              obtain ⟨left, -, hFound, -⟩ := exists_of_splitAtMark? hEnds.joins hSplit
              exact hEnds.holdsEnd _ _ hFound
            obtain ⟨front, hFront, hTail⟩ : ∃ front, body ++ found = c :: front ∧
                tail = front ++ rest := by
              cases hPiece : body ++ found with
              | nil => simp [(List.append_eq_nil_iff.1 hPiece).2] at hEnd
              | cons d front =>
                  rw [← List.append_assoc, hPiece] at hJoin
                  cases hJoin
                  exact ⟨front, rfl, rfl⟩
            have hInFront : '>' ∈ front := by
              have hMem : '>' ∈ c :: front := by
                rw [← hFront]
                simp [hEnd]
              rcases List.mem_cons.1 hMem with hC | hMem
              · rw [← hC] at hLetter
                exact absurd rfl hLetter
              · exact hMem
            have hName (text : List Char) :=
              @splitRun_append_of_mem continuesSectionName _ _ hInFront (by decide) text
            have hBlank (text : List Char) := splitBlank_append_of_mem (hName []).2 text
            rw [hJoin] at hSplit
            have hOther := splitAtMark?_append hEnds hSplit other
            have hLater : body ++ (found ++ other) = c :: (front ++ other) := by
              rw [← List.append_assoc, hFront, List.cons_append]
            refine ⟨body ++ (found ++ other), by simp, ?_⟩
            rw [hTail, (hName rest).1] at hMark
            rw [hLater] at hOther ⊢
            simp only [sectionStep, hLetter, (hName other).1, (hBlank other).1, hMark, hOther]
            have hNonempty : ((splitBlank (splitRun (fun c _ => continuesSectionName c) front).2).2 ++
                other).isEmpty = false := by
              rw [List.isEmpty_eq_false_iff]
              exact List.append_ne_nil_of_left_ne_nil (List.ne_nil_of_mem (hBlank []).2) _
            simp [hNonempty]
          · simp [unfinished_first] at hStep

theorem markupStep_declaration {pass : Pass} {text : List Char} (hSection : text.head? ≠ some '[')
    (hComment : ¬ ['-', '-'] <+: text) :
    markupStep pass ('!' :: text) =
      if beginsDoctype text then
        match splitAtFirst? '>' (text.drop 7) with
        | some (body, _) =>
          .token (.doctype (text.take 7 ++ body)) ('!' :: (text.take 7 ++ body) ++ ['>']) none
        | none => unfinished pass ('!' :: text)
      else
        match splitAtFirst? '>' text with
        | some (body, _) => .token (.comment body) ('!' :: body ++ ['>']) none
        | none => unfinished pass ('!' :: text) := by
  unfold markupStep
  split
  · rename_i hEmpty
    simp at hEmpty
  · rename_i hSlash
    simp at hSlash
  · rename_i hText
    cases hText
    exact absurd ⟨_, rfl⟩ hComment
  · rename_i hQuery
    simp at hQuery
  · rename_i hText
    cases hText
    simp at hSection
  · rename_i hText
    cases hText
    rfl
  · rename_i hNone hText
    cases hText
    exact absurd rfl hNone

/-- The first `>` ends what could be the word. -/
theorem beginsDoctype_append_end (body rest : List Char) :
    beginsDoctype (body ++ '>' :: rest) = beginsDoctype body := by
  unfold beginsDoctype
  by_cases hLength : 7 ≤ body.length
  · rw [List.take_append_of_le_length hLength]
  · have hShort : (body.take 7).map Char.toLower ≠ "doctype".toList := by
      intro hWord
      have hSeven := congrArg List.length hWord
      have hWordLength : "doctype".toList.length = 7 := rfl
      simp only [List.length_map, List.length_take] at hSeven
      omega
    have hEnd : ((body ++ '>' :: rest).take 7).map Char.toLower ≠ "doctype".toList := by
      intro hWord
      have hMem : '>' ∈ ((body ++ '>' :: rest).take 7).map Char.toLower := by
        obtain ⟨left, hLeft⟩ : ∃ left, 7 - body.length = left + 1 := ⟨6 - body.length, by omega⟩
        rw [List.take_append, hLeft, List.take_succ_cons]
        simp only [List.map_append, List.map_cons, List.mem_append, List.mem_cons]
        exact .inr (.inl rfl)
      rw [hWord] at hMem
      revert hMem
      decide
    rw [decide_eq_false hEnd, decide_eq_false hShort]

/-- A declaration is read whatever follows it, as its first `>` settles what kind it is of. -/
theorem declarationStep_append (hSection : text.head? ≠ some '[')
    (hComment : ¬ ['-', '-'] <+: text)
    (hStep : markupStep .first ('!' :: text) = .token content more next) (other : List Char) :
    markupStep .first (more ++ other) = .token content more next := by
  have hKind (body behind : List Char) (hText : text = body ++ '>' :: behind) :
      (body ++ '>' :: other).head? ≠ some '[' ∧ ¬ ['-', '-'] <+: body ++ '>' :: other := by
    subst hText
    match body with
    | [] => simp
    | [c] =>
        refine ⟨hSection, ?_⟩
        rintro ⟨tail, hTail⟩
        simp at hTail
    | c :: d :: body =>
        refine ⟨hSection, ?_⟩
        rintro ⟨tail, hTail⟩
        apply hComment
        simp only [List.cons_append, List.nil_append, List.cons.injEq] at hTail
        obtain ⟨rfl, rfl, -⟩ := hTail
        exact ⟨_, rfl⟩
  rw [markupStep_declaration hSection hComment] at hStep
  split at hStep
  · rename_i hDoctype
    split at hStep
    · rename_i body behind hSplit
      cases hStep
      have hWord := hDoctype
      simp only [beginsDoctype, decide_eq_true_eq] at hWord
      have hLength : (text.take 7).length = 7 := by
        have hSeven := congrArg List.length hWord
        rwa [List.length_map] at hSeven
      have hText : text = text.take 7 ++ body ++ '>' :: behind := by
        rw [List.append_assoc, ← splitAtFirst?_eq_some hSplit, List.take_append_drop]
      obtain ⟨hOtherSection, hOtherComment⟩ := hKind _ _ hText
      have hTake : (text.take 7 ++ body ++ '>' :: other).take 7 = text.take 7 := by
        rw [List.append_assoc, List.take_left' hLength]
      have hDrop : (text.take 7 ++ body ++ '>' :: other).drop 7 = body ++ '>' :: other := by
        rw [List.append_assoc, List.drop_left' hLength]
      have hOtherDoctype : beginsDoctype (text.take 7 ++ body ++ '>' :: other) = true := by
        rw [hText, beginsDoctype_append_end] at hDoctype
        rw [beginsDoctype_append_end]
        exact hDoctype
      have hMore : '!' :: (text.take 7 ++ body) ++ ['>'] ++ other =
          '!' :: (text.take 7 ++ body ++ '>' :: other) := by simp
      rw [hMore, markupStep_declaration hOtherSection hOtherComment, if_pos hOtherDoctype, hDrop,
        splitAtFirst?_append hSplit other, hTake]
    · simp [unfinished_first] at hStep
  · rename_i hNot
    split at hStep
    · rename_i body behind hSplit
      cases hStep
      have hText := splitAtFirst?_eq_some hSplit
      obtain ⟨hOtherSection, hOtherComment⟩ := hKind _ _ hText
      have hOtherNot : ¬ beginsDoctype (body ++ '>' :: other) = true := by
        rw [hText, beginsDoctype_append_end] at hNot
        rwa [beginsDoctype_append_end]
      have hMore : '!' :: body ++ ['>'] ++ other = '!' :: (body ++ '>' :: other) := by simp
      rw [hMore, markupStep_declaration hOtherSection hOtherComment, if_neg hOtherNot,
        splitAtFirst?_append hSplit other]
    · simp [unfinished_first] at hStep

end

/-- The null character may stand in all parts of an attribute, so it is only left behind where no
attribute may begin. -/
theorem AttributesEnd.before_null {before : Char} {attributes : List WrittenAttribute}
    {rest : List Char} (hEnd : AttributesEnd before attributes ('\x00' :: rest)) :
    attributes = [] ∧ admitsAttribute before = false := by
  have hBegins : beginsName '\x00' = true := by decide
  have hName : continuesName '\x00' = true := by decide
  have hValue : continuesBareValue '\x00' = true := by decide
  induction attributes generalizing before with
  | nil =>
      rcases readAttribute?_eq_none_iff.1 hEnd with hBefore | hStops
      · exact ⟨rfl, hBefore⟩
      · simp [hBegins] at hStops
  | cons written more ih =>
      obtain ⟨-, -, hEnds, hGap, hMore⟩ := hEnd
      obtain ⟨rfl, hLast⟩ := ih hMore
      exfalso
      obtain ⟨name, assignment, gap⟩ := written
      simp only [List.flatMap_nil, List.nil_append, WrittenAttribute.source] at hEnds hGap hLast
      have hNoGap : gap = [] := by
        by_contra hNonempty
        rw [admitsAttribute_lastOr hNonempty hGap.separators] at hLast
        simp at hLast
      subst hNoGap
      cases assignment with
      | none => simp [WrittenAttribute.Ends, hName] at hEnds
      | some assignment =>
          simp only [WrittenAttribute.Ends, List.nil_append] at hEnds
          generalize hFollowing : '\x00' :: rest = following at hEnds
          cases hEnds with
          | @quoted before signs behind text following mark lead isMark closed =>
              have hSource : WrittenAttribute.body ⟨name,
                  some ⟨before ++ signs ++ behind, .quoted mark text⟩, []⟩ =
                  (name ++ (before ++ signs ++ behind ++ mark :: text)) ++ [mark] := by
                simp [WrittenAttribute.body, Assignment.source, WrittenValue.source]
              rw [hSource, List.append_nil, lastOr, List.getLast?_concat, Option.getD_some] at hLast
              simp [admitsAttribute, isMark] at hLast
          | bare lead leadStops opens goesOn stops =>
              rw [← hFollowing] at stops
              simp [hValue] at stops
          | beforeBlank lead isMark unclosed =>
              cases hFollowing
              have hBlank := lead.behind_blank '\x00' (by simp)
              revert hBlank
              decide
          | beforeSign lead isMark goesOn stops unclosed =>
              rw [← hFollowing] at stops
              simp [hValue] at stops

/-- The reading of a tag breaks off at a null character directly behind the name. -/
theorem readOpenTag_eq_broken_iff {text name : List Char} :
    readOpenTag text = .broken name ↔
      IsTagName name ∧ admitsAttribute (lastOr '<' name) = false ∧
        ∃ rest, text = name ++ '\x00' :: rest := by
  constructor
  · intro hRead
    unfold readOpenTag at hRead
    split at hRead
    · simp at hRead
    · rename_i found behind hFound
      obtain ⟨rfl, hName, -⟩ := readTagName?_eq_some_iff.1 hFound
      rcases hGap : splitGap behind with ⟨gap, afterGap⟩
      rcases hAttributes : readAttributes (lastOr '<' (found ++ gap)) afterGap with ⟨attributes, left⟩
      simp only [hGap, hAttributes] at hRead
      split at hRead <;> cases hRead
      obtain ⟨hJoin, hEnd⟩ := readAttributes_eq_iff.1 hAttributes
      obtain ⟨rfl, hBefore⟩ := hEnd.before_null
      have hNoGap : gap = [] := by
        by_contra hNonempty
        rw [admitsAttribute_lastOr hNonempty (gapStops_of_splitGap hGap).separators] at hBefore
        simp at hBefore
      have hBehind := splitGap_append behind
      rw [hGap, hJoin, hNoGap] at hBehind
      rw [hNoGap, List.append_nil] at hBefore
      exact ⟨hName, hBefore, _, by rw [← hBehind]; rfl⟩
  · rintro ⟨hName, hBefore, rest, rfl⟩
    have hRead : readTagName? (name ++ '\x00' :: rest) = some (name, '\x00' :: rest) :=
      readTagName?_eq_some_iff.2 ⟨rfl, hName, rfl⟩
    have hGap : splitGap ('\x00' :: rest) = ([], '\x00' :: rest) := by
      rw [splitGap, splitRun_cons]
      rfl
    have hNone : readAttribute? (lastOr '<' (name ++ [])) ('\x00' :: rest) = none := by
      rw [List.append_nil]
      exact readAttribute?_eq_none_iff.2 (.inl hBefore)
    simp only [readOpenTag, hRead, hGap, readAttributes_of_none hNone]

theorem markupStep_other {c : Char} (hSlash : c ≠ '/') (hQuery : c ≠ '?') (hBang : c ≠ '!')
    (pass : Pass) (tail : List Char) :
    markupStep pass (c :: tail) =
      if isLetter c then openTagStep pass (c :: tail) else .token .text [] none := by
  unfold markupStep
  split <;> simp_all

theorem markupStep_letter {c : Char} (hLetter : isLetter c = true) (pass : Pass)
    (tail : List Char) : markupStep pass (c :: tail) = openTagStep pass (c :: tail) := by
  have hNot (d : Char) (hD : isLetter d = false) : c ≠ d := by
    rintro rfl
    simp [hLetter] at hD
  rw [markupStep_other (hNot '/' rfl) (hNot '?' rfl) (hNot '!' rfl), if_pos hLetter]

/-- A token of markup that is no opening tag depends on the character behind it at most. -/
theorem markupStep_append {text more rest other : List Char} {content : Content}
    {next : Option (List Char)} (hStep : markupStep .first text = .token content more next)
    (hText : more ++ rest = text) (hOther : ∀ tag, content ≠ .openTag tag)
    (hHead : other.head? = rest.head?) :
    markupStep .first (more ++ other) = .token content more next := by
  cases text with
  | nil => simp [markupStep] at hStep
  | cons c tail =>
      by_cases hSlash : c = '/'
      · subst hSlash
        obtain ⟨later, hLater, hSame⟩ := endTagStep_append hStep other
        rw [hLater]
        exact hSame
      by_cases hQuery : c = '?'
      · subst hQuery
        exact instructionStep_append hStep other
      by_cases hBang : c = '!'
      · subst hBang
        by_cases hSection : tail.head? = some '['
        · obtain ⟨tail, rfl⟩ := List.head?_eq_some_iff.1 hSection
          obtain ⟨later, hLater, hSame⟩ := sectionStep_append hStep hText other
          rw [hLater]
          exact hSame
        · by_cases hComment : ['-', '-'] <+: tail
          · obtain ⟨tail, rfl⟩ := hComment
            exact commentStep_append hStep hText other
          · exact declarationStep_append hSection hComment hStep other
      rw [markupStep_other hSlash hQuery hBang] at hStep
      split at hStep
      · rename_i hLetter
        rw [openTagStep_eq] at hStep
        split at hStep
        · rename_i tag behind hRead
          cases hStep
          exact absurd rfl (hOther tag)
        · rename_i name hRead
          cases hStep
          obtain ⟨hName, hBefore, left, hJoin⟩ := readOpenTag_eq_broken_iff.1 hRead
          have hRest : rest = '\x00' :: left := List.append_cancel_left (hText.trans hJoin)
          rw [hRest] at hHead
          obtain ⟨later, rfl⟩ := List.head?_eq_some_iff.1 hHead
          have hBroken := readOpenTag_eq_broken_iff.2 ⟨hName, hBefore, later, rfl⟩
          cases more with
          | nil => exact hName.elim
          | cons d more =>
              rw [List.cons_append] at hBroken ⊢
              rw [markupStep_letter hName.1, openTagStep_eq, hBroken]
        · simp [unfinished_first] at hStep
      · rename_i hLetter
        cases hStep
        rw [List.nil_append] at hText ⊢
        rw [hText] at hHead
        obtain ⟨later, rfl⟩ := List.head?_eq_some_iff.1 hHead
        rw [markupStep_other hSlash hQuery hBang, if_neg hLetter]

/-- A run of text is read whatever follows, if that begins with the same character. -/
theorem textStep_append {text more rest other : List Char} {content : Content}
    {next : Option (List Char)} (hStep : textStep text = .token content more next)
    (hText : more ++ rest = text) (hHead : other.head? = rest.head?) :
    textStep (more ++ other) = .token content more next := by
  rcases hRun : splitRun (fun c _ => c != '<' && c != '&') text with ⟨run, behind⟩
  obtain ⟨hJoin, hKept, hStops⟩ := splitRun_eq_iff.1 hRun
  rw [textStep, hRun] at hStep
  cases hStep
  have hRest : rest = behind := List.append_cancel_left (hText.trans hJoin)
  rw [← hRest] at hStops
  have hOther : splitRun (fun c _ => c != '<' && c != '&') (run ++ other) = (run, other) :=
    splitRun_eq_iff.2 ⟨rfl, hKept, hStops.of_head? hHead⟩
  rw [textStep, hOther]

/-- A token outside of raw text that is no opening tag stays what it is when the text behind it
changes, unless this begins differently. At the end of the text a reference may depend on more, but
there no tag follows. -/
theorem nextStep_append {c : Char} {more rest other : List Char} {content : Content}
    {next : Option (List Char)}
    (hStep : nextStep .first none c (more ++ rest) = .token content more next)
    (hOther : ∀ tag, content ≠ .openTag tag) (hHead : other.head? = rest.head?)
    (hPlain : '<' ∉ rest → other = rest) :
    nextStep .first none c (more ++ other) = .token content more next := by
  by_cases hOpen : '<' ∈ rest
  · simp only [nextStep] at hStep ⊢
    split at hStep
    · rename_i hC
      rw [if_pos hC]
      exact markupStep_append hStep rfl hOther hHead
    · rename_i hC
      rw [if_neg hC]
      split at hStep
      · rename_i hAmpersand
        rw [if_pos hAmpersand]
        exact referenceStep_append hStep rfl hOpen hHead
      · rename_i hAmpersand
        rw [if_neg hAmpersand]
        exact textStep_append hStep rfl hHead
  · rw [hPlain hOpen]
    exact hStep

/-- A word ends before a `>` in the text. -/
theorem afterWord?_append {word front : List Char} (hWord : '>' ∉ word) (hEnd : '>' ∈ front)
    (rest : List Char) :
    afterWord? word (front ++ rest) = (afterWord? word front).map (· ++ rest) ∧
      ∀ behind, afterWord? word front = some behind → '>' ∈ behind := by
  induction word generalizing front with
  | nil =>
      refine ⟨by simp [afterWord?], ?_⟩
      intro behind hBehind
      cases hBehind
      exact hEnd
  | cons letter word ih =>
      cases front with
      | nil => simp at hEnd
      | cons c front =>
          have hLetter : letter ≠ '>' := by
            rintro rfl
            exact hWord (List.mem_cons_self ..)
          simp only [List.cons_append, afterWord?]
          split
          · rename_i hMatches
            have hC : c ≠ '>' := by
              rintro rfl
              simp [matchesLetter, Ne.symm hLetter] at hMatches
            have hFront : '>' ∈ front := by
              rcases List.mem_cons.1 hEnd with hC' | hMem
              · exact absurd hC'.symm hC
              · exact hMem
            exact ih (fun hMem => hWord (List.mem_cons_of_mem _ hMem)) hFront
          · simp

/-- What looks like the end tag of an element does so whatever stands behind its `>`. -/
theorem looksLikeEndOf_append {name front : List Char} (hName : '>' ∉ name) (hEnd : '>' ∈ front)
    (rest : List Char) : looksLikeEndOf name (front ++ rest) = looksLikeEndOf name front := by
  match front with
  | [] => simp at hEnd
  | [c] =>
      have hC : '>' = c := by simpa using hEnd
      subst hC
      rfl
  | c :: d :: front =>
      by_cases hOpens : c = '<' ∧ d = '/'
      · obtain ⟨rfl, rfl⟩ := hOpens
        have hFront : '>' ∈ front := by simpa using hEnd
        obtain ⟨hBlank, hMem⟩ := splitBlank_append_of_mem hFront rest
        obtain ⟨hWord, hBehind⟩ := afterWord?_append hName hMem rest
        simp only [List.cons_append, looksLikeEndOf, hBlank, hWord]
        cases hAfter : afterWord? name (splitBlank front).2 with
        | none => rfl
        | some behind =>
            simp [blankThen_settles '>' behind (hBehind behind hAfter) rest]
      · have hNot (text : List Char) : looksLikeEndOf name (c :: d :: text) = false := by
          unfold looksLikeEndOf
          split
          · rename_i hText
            cases hText
            exact absurd ⟨rfl, rfl⟩ hOpens
          · rfl
        simp [hNot]

/-- A token of raw text stays what it is when the text behind it changes, as long as an end tag that
begins there stays whole. -/
theorem rawTextStep_append {name : List Char} (hName : '>' ∉ name) {c : Char}
    {more rest other : List Char} {content : Content} {next : Option (List Char)}
    (hStep : rawTextStep name c (more ++ rest) = .token content more next)
    (hFront : next = some name → looksLikeEndOf name rest = true →
      ∃ front tail later, rest = front ++ tail ∧ other = front ++ later ∧ '>' ∈ front) :
    rawTextStep name c (more ++ other) = .token content more next := by
  unfold rawTextStep at hStep
  split at hStep
  · rename_i hLooks
    split at hStep
    · simp at hStep
    · rename_i slash text hText
      split at hStep
      · simp at hStep
      · rename_i body behind hSplit
        have hMore : more = slash :: body ++ ['>'] := by
          simp only at hStep
          split at hStep
          · split at hStep <;> cases hStep <;> rfl
          · cases hStep
            rfl
        have hEnd : '>' ∈ c :: more := by simp [hMore]
        rw [← List.cons_append, looksLikeEndOf_append hName hEnd] at hLooks
        have hOtherLooks := hLooks
        rw [← looksLikeEndOf_append hName hEnd other, List.cons_append] at hOtherLooks
        have hOther : more ++ other = slash :: (body ++ '>' :: other) := by simp [hMore]
        rw [hOther] at hOtherLooks ⊢
        simp only [rawTextStep, hOtherLooks, if_true, splitAtFirst?_append hSplit other]
        exact hStep
  · rename_i hLooks
    split at hStep
    · simp at hStep
    · rename_i run behind hNonempty hRun
      cases hStep
      have hJoin := splitRun_append (fun c rest => !looksLikeEndOf name (c :: rest)) (more ++ rest)
      rw [hRun] at hJoin
      have hBehind : behind = rest := List.append_cancel_left hJoin
      subst hBehind
      cases behind with
      | nil => exact (hNonempty rfl).elim
      | cons d behind =>
          have hStops := splitRun_stops (fun c rest => !looksLikeEndOf name (c :: rest))
            (congrArg Prod.snd hRun)
          obtain ⟨front, tail, later, hRest, rfl, hEnd⟩ := hFront rfl (by simpa using hStops)
          rw [hRest] at hRun hLooks
          have hOther := @splitRun_settled (fun text => !looksLikeEndOf name text)
            (fun front hMem rest => by simp [looksLikeEndOf_append hName hMem]) _ _ _ hEnd hRun later
          have hWhole : '>' ∈ c :: (more ++ front) := by simp [hEnd]
          rw [← List.append_assoc, ← List.cons_append, looksLikeEndOf_append hName hWhole] at hLooks
          have hOtherLooks := hLooks
          rw [← looksLikeEndOf_append hName hWhole later, List.cons_append, List.append_assoc]
            at hOtherLooks
          simp only [rawTextStep, hOtherLooks, hOther, Bool.false_eq_true, if_false]
          split
          · rename_i hNil
            simp only [Prod.mk.injEq] at hNil
            simp [(List.append_eq_nil_iff.1 hNil.2).1] at hEnd
          · rename_i hPair
            cases hPair
            rfl

end AccessibleMarkup.Markup
