import AccessibleMarkup.Proofs.LineEndsInMarkup
import AccessibleMarkup.Proofs.NameRuns

/-! Tokens of a text whose line ends are unified: they are the tokens of the text with unified line
ends. No token ends between a carriage return and a line feed, for what follows running text is a
`<` or an ampersand, and all other tokens end with characters of their own. -/
namespace AccessibleMarkup.Markup

open AccessibleMarkup.Text

def Token.unify (token : Token) : Token :=
  ⟨token.content.unify, unifyLineEnds token.source⟩

theorem semicolon_unifyLineEnds (text : List Char) :
    semicolon (unifyLineEnds text) = semicolon text := by
  have hHead : (unifyLineEnds text).head? = some ';' ↔ text.head? = some ';' := by
    rw [head?_unifyLineEnds_eq_some (by decide)]
    simp
  simp only [semicolon, hHead]

theorem isOneLine_semicolon (text : List Char) : IsOneLine (semicolon text) := by
  unfold semicolon
  split <;> decide

theorem Numeral.isOneLine_source {text : List Char} {numeral : Numeral}
    (hRead : Numeral.read? text = some numeral) : IsOneLine numeral.source :=
  ⟨fun hMem => absurd (Numeral.of_mem_source hRead hMem) (by decide),
    fun hMem => absurd (Numeral.of_mem_source hRead hMem) (by decide)⟩

theorem Numeral.read?_unifyLineEnds (text : List Char) :
    Numeral.read? (unifyLineEnds text) = Numeral.read? text := by
  cases text using unifyLineEnds_cases with
  | nil => rfl
  | turned rest left hLeft =>
      rw [hLeft]
      rfl
  | kept c rest hReturn =>
      have hDecimal := @splitRun_unifyLineEnds_of_solid Char.isDigit rfl rfl (c :: rest)
      rw [unifyLineEnds_cons hReturn] at hDecimal ⊢
      simp only [Numeral.read?, @splitRun_unifyLineEnds_of_solid isHexDigit rfl rfl, hDecimal]

/-- What stands behind a piece without line ends has its line ends unified by itself. -/
theorem drop_unifyLineEnds {piece text : List Char} (hPiece : IsOneLine piece)
    (hFront : piece <+: text) :
    (unifyLineEnds text).drop piece.length = unifyLineEnds (text.drop piece.length) := by
  obtain ⟨left, rfl⟩ := hFront
  rw [unifyLineEnds_append_of_oneLine hPiece, List.drop_left, List.drop_left]

/-- A numeral ends where it did. -/
theorem numericReference?_unifyLineEnds (text : List Char) :
    numericReference? (unifyLineEnds text) = numericReference? text := by
  rw [numericReference?, numericReference?, Numeral.read?_unifyLineEnds]
  cases hRead : Numeral.read? text with
  | none => rfl
  | some numeral =>
      simp only [drop_unifyLineEnds (Numeral.isOneLine_source hRead) (Numeral.source_front hRead)]
      cases text.drop numeral.source.length using unifyLineEnds_cases with
      | nil => rfl
      | turned left left hLeft =>
          rw [hLeft]
          rfl
      | kept c left hReturn =>
          rw [unifyLineEnds_cons hReturn]

/-- The name of a reference ends where it did. -/
theorem referenceName?_unifyLineEnds (text : List Char) :
    referenceName? (unifyLineEnds text) = referenceName? text := by
  cases text using unifyLineEnds_cases with
  | nil => rfl
  | turned rest left hLeft =>
      rw [hLeft]
      rfl
  | kept c rest hReturn =>
      rw [unifyLineEnds_cons hReturn]
      simp only [referenceName?, @splitRun_unifyLineEnds_of_solid continuesReference rfl rfl]
      rcases splitRun (fun c _ => continuesReference c) rest with ⟨run, - | ⟨d, left⟩⟩
      · rfl
      · obtain ⟨e, other, hOther⟩ := List.exists_cons_of_ne_nil
          (mt unifyLineEnds_eq_nil_iff.1 (List.cons_ne_nil d left))
        rw [hOther]

theorem isOneLine_referenceName {text name : List Char} (hName : referenceName? text = some name) :
    IsOneLine name :=
  isOneLine_of_test continuesReference rfl rfl
    (continuesReference_of_referenceName? hName)

section
variable {c : Char} (hC : c ≠ '\r') (pass : Pass)
include hC

/-- A reference by number. -/
theorem numericStep_unifies (text : List Char) :
    Step.Unifies (c :: '#' :: text) (referenceStep pass ('#' :: text))
      (referenceStep pass ('#' :: unifyLineEnds text)) := by
  have hConsumes := referenceStep_consumes pass ('#' :: text)
  have hSemicolons := contains_unifyLineEnds (show ';' ≠ '\r' by decide) (by decide) text
  simp only [referenceStep, numericReference?_unifyLineEnds, hSemicolons] at hConsumes ⊢
  cases hNumeral : numericReference? text with
  | some numeral =>
      have hRead := read?_of_numericReference? hNumeral
      have hOneLine := Numeral.isOneLine_source hRead
      rw [hNumeral] at hConsumes
      obtain ⟨left, hLeft⟩ := hConsumes
      have hMore : IsOneLine ('#' :: numeral.source ++
          semicolon (text.drop numeral.source.length)) :=
        isOneLine_append.2 ⟨isOneLine_cons.2 ⟨by decide, by decide, hOneLine⟩,
          isOneLine_semicolon _⟩
      have hToken := Step.Unifies.token_of_oneLine hC (.numeric numeral) _ left hMore none
      rw [hLeft] at hToken
      simp only [drop_unifyLineEnds hOneLine (Numeral.source_front hRead),
        semicolon_unifyLineEnds]
      exact hToken
  | none =>
      simp only
      split
      · exact .lastToken_of_oneLine hC .text ['#'] text (by decide)
      · exact .stop

/-- A reference by name, or an ampersand that stands for itself. -/
theorem namedStep_unifies {d : Char} (hReturn : d ≠ '\r') (hHash : d ≠ '#') (text : List Char) :
    Step.Unifies (c :: d :: text) (referenceStep pass (d :: text))
      (referenceStep pass (d :: unifyLineEnds text)) := by
  have hConsumes := referenceStep_consumes pass (d :: text)
  have hName := referenceName?_unifyLineEnds (d :: text)
  have hDrop {name : List Char} (hName : referenceName? (d :: text) = some name) :=
    drop_unifyLineEnds (isOneLine_referenceName hName) (referenceName?_front hName)
  rw [unifyLineEnds_cons hReturn] at hName hDrop
  rw [referenceStep_other hHash] at hConsumes ⊢
  rw [referenceStep_other hHash, hName]
  split
  · next hLetter =>
      rw [if_pos hLetter] at hConsumes
      cases hFound : referenceName? (d :: text) with
      | some name =>
          rw [hFound] at hConsumes
          obtain ⟨left, hLeft⟩ := hConsumes
          have hMore : IsOneLine (name ++ semicolon ((d :: text).drop name.length)) :=
            isOneLine_append.2 ⟨isOneLine_referenceName hFound, isOneLine_semicolon _⟩
          have hToken := Step.Unifies.token_of_oneLine hC (.named name) _ left hMore none
          rw [hLeft] at hToken
          simp only [hDrop hFound, semicolon_unifyLineEnds]
          exact hToken
      | none =>
          simp only [isEmpty_unifyLineEnds]
          split
          · exact .lastToken_of_oneLine hC .ignored [] (d :: text) (by decide)
          · exact .stop
  · exact .token_of_oneLine hC .text [] (d :: text) (by decide) none

/-- A character reference of a text with unified line ends. -/
theorem referenceStep_unifies (rest : List Char) :
    Step.Unifies (c :: rest) (referenceStep pass rest)
      (referenceStep pass (unifyLineEnds rest)) := by
  cases rest using unifyLineEnds_cases with
  | nil => exact .stop
  | turned text left hLeft =>
      rw [hLeft]
      exact .token_of_oneLine hC .text [] ('\r' :: text) (by decide) none
  | kept d text hReturn =>
      rw [unifyLineEnds_cons hReturn]
      by_cases hHash : d = '#'
      · subst hHash
        exact numericStep_unifies hC pass text
      · exact namedStep_unifies hC pass hReturn hHash text

end

section
variable {c d : Char} {rest other : List Char} (hText : unifyLineEnds (c :: rest) = d :: other)
include hText

/-- A run that a character begins. -/
theorem run_unifyLineEnds {keep : RunTest} (hKeep : keep.BlindToLineEnds)
    (hC : keep c rest = true) :
    unifyLineEnds (c :: (splitRun keep rest).1) = d :: (splitRun keep other).1 ∧
      unifyLineEnds (splitRun keep rest).2 = (splitRun keep other).2 := by
  have hRun := splitRun_unifyLineEnds hKeep (c :: rest)
  rw [hText, splitRun_cons keep c, if_pos hC, splitRun_cons] at hRun
  split at hRun
  · exact ⟨(Prod.mk.inj hRun).1.symm, (Prod.mk.inj hRun).2.symm⟩
  · exact absurd (unifyLineEnds_eq_nil_iff.1 (Prod.mk.inj hRun).1.symm) (by simp)

/-- A run that ends at the same place is the same piece of the text with unified line ends. -/
theorem run_unifies {keep : RunTest} (hKeep : keep.BlindToLineEnds) (hC : keep c rest = true)
    (content : Content) (next : Option (List Char)) :
    Step.Unifies (c :: rest) (.token content (splitRun keep rest).1 next)
      (.token content.unify (splitRun keep other).1 next) := by
  obtain ⟨hPiece, hLeft⟩ := run_unifyLineEnds hText hKeep hC
  have hJoin : c :: rest = c :: ((splitRun keep rest).1 ++ (splitRun keep rest).2) := by
    rw [splitRun_append]
  refine .token hJoin hPiece ?_
  rw [hText, hLeft, splitRun_append]

/-- The body of a script is taken in the same pieces. -/
theorem rawTextStep_unifies {name : List Char} (hName : IsOneLine name) :
    Step.Unifies (c :: rest) (rawTextStep name c rest) (rawTextStep name d other) := by
  have hLooks := looksLikeEndOf_unifyLineEnds hName (c :: rest)
  rw [hText] at hLooks
  unfold rawTextStep
  rw [hLooks]
  split
  · next hEnd =>
      obtain ⟨text, hFront⟩ := exists_of_looksLikeEndOf hEnd
      obtain ⟨rfl, rfl⟩ := List.cons.inj hFront
      rw [unifyLineEnds_cons (by decide), unifyLineEnds_cons (by decide)] at hText
      obtain ⟨rfl, rfl⟩ := List.cons.inj hText
      simp only [@splitAtFirst?_unifyLineEnds '>' (by decide) (by decide)]
      cases hSplit : splitAtFirst? '>' text with
      | none => exact .stop
      | some found =>
          obtain ⟨body, left⟩ := found
          have hToken := markupToEnd_unifies (show '<' ≠ '\r' by decide)
            (show IsOneLine ['/'] by decide) hSplit
          simp only [Option.map_some, Prod.map_apply, plainEndName?_unifyLineEnds]
          cases plainEndName? body with
          | none => exact hToken .text (some name)
          | some found =>
              simp only
              split
              · exact hToken (.closeTag found) none
              · exact hToken .text (some name)
  · next hEnd =>
      have hTest : RunTest.BlindToLineEnds fun c rest => !looksLikeEndOf name (c :: rest) := by
        refine ⟨fun c rest hC => ?_, fun rest other => rfl⟩
        rw [← unifyLineEnds_cons hC, looksLikeEndOf_unifyLineEnds hName]
      have hC : (!looksLikeEndOf name (c :: rest)) = true := by simpa using hEnd
      have hToken := run_unifies hText hTest hC .text (some name)
      obtain ⟨-, hLeft⟩ := run_unifyLineEnds hText hTest hC
      revert hToken hLeft
      rcases splitRun (fun c rest => !looksLikeEndOf name (c :: rest)) rest with
        ⟨more, - | ⟨e, left⟩⟩ <;>
      rcases splitRun (fun c rest => !looksLikeEndOf name (c :: rest)) other with
        ⟨taken, - | ⟨f, behind⟩⟩ <;>
      intro hToken hLeft
      · exact .stop
      · cases hLeft
      · exact absurd (unifyLineEnds_eq_nil_iff.1 hLeft) (by simp)
      · exact hToken

theorem textStep_unifies (hOpen : c ≠ '<') (hAmpersand : c ≠ '&') :
    Step.Unifies (c :: rest) (textStep rest) (textStep other) :=
  run_unifies hText (@blindToLineEnds_of_test (fun c => c != '<' && c != '&') rfl)
    (by simp [hOpen, hAmpersand]) .text none

/-- The next token of a text with unified line ends. -/
theorem nextStep_unifies (pass : Pass) {rawText : Option (List Char)}
    (hRaw : ∀ name ∈ rawText, IsOneLine name) :
    Step.Unifies (c :: rest) (nextStep pass rawText c rest) (nextStep pass rawText d other) := by
  cases rawText with
  | some name => exact rawTextStep_unifies hText (hRaw name rfl)
  | none =>
      have hSame {mark : Char} (hReturn : mark ≠ '\r') (hFeed : mark ≠ '\n') (hC : c ≠ mark) :
          d ≠ mark := by
        rintro rfl
        obtain ⟨left, hLeft, -⟩ := (unifyLineEnds_eq_cons_iff hReturn hFeed).1 hText
        exact hC (List.cons.inj hLeft).1
      simp only [nextStep]
      by_cases hOpen : c = '<'
      · subst hOpen
        rw [unifyLineEnds_cons (by decide)] at hText
        obtain ⟨rfl, rfl⟩ := List.cons.inj hText
        exact markupStep_unifies (by decide) pass rest
      by_cases hAmpersand : c = '&'
      · subst hAmpersand
        rw [unifyLineEnds_cons (by decide)] at hText
        obtain ⟨rfl, rfl⟩ := List.cons.inj hText
        exact referenceStep_unifies (by decide) pass rest
      rw [if_neg hOpen, if_neg hAmpersand, if_neg (hSame (by decide) (by decide) hOpen),
        if_neg (hSame (by decide) (by decide) hAmpersand)]
      exact textStep_unifies hText hOpen hAmpersand

end

/-- The names that raw text ends at have no line ends. -/
theorem isOneLine_of_nextStep {pass : Pass} {rawText next : Option (List Char)} {c : Char}
    {content : Content} {more rest : List Char}
    (hStep : nextStep pass rawText c rest = .token content more next)
    (hRaw : ∀ name ∈ rawText, IsOneLine name) : ∀ name ∈ next, IsOneLine name := by
  refine forall_rawText_of_nextStep (fun name hBody => ?_) hStep hRaw
  simp only [hasRawBody, Bool.or_eq_true, decide_eq_true_eq] at hBody
  rcases hBody with rfl | rfl <;> decide

/-- What is left where the last pass stops is left with unified line ends. -/
theorem scanEnd_unifyLineEnds (rawText : Option (List Char)) (text : List Char) :
    scanEnd [] rawText (unifyLineEnds text) =
      ⟨(scanEnd [] rawText text).tokens.map Token.unify,
        unifyLineEnds (scanEnd [] rawText text).dropped, none⟩ := by
  cases rawText with
  | some name => rfl
  | none =>
      cases text with
      | nil => rfl
      | cons c rest =>
          obtain ⟨d, other, hOther⟩ := List.exists_cons_of_ne_nil
            (mt unifyLineEnds_eq_nil_iff.1 (List.cons_ne_nil c rest))
          simp [scanEnd, hOther, Token.unify, Content.unify]

section
variable {pass : Pass} {rawText : Option (List Char)} (hRaw : ∀ name ∈ rawText, IsOneLine name)
  {c : Char}
include hRaw

theorem exists_step_unified (rest : List Char) :
    ∃ d other, unifyLineEnds (c :: rest) = d :: other ∧
      Step.Unifies (c :: rest) (nextStep pass rawText c rest) (nextStep pass rawText d other) := by
  obtain ⟨d, other, hText⟩ := List.exists_cons_of_ne_nil
    (mt unifyLineEnds_eq_nil_iff.1 (List.cons_ne_nil c rest))
  exact ⟨d, other, hText, nextStep_unifies hText pass hRaw⟩

/-- The token of a text is the token of the text with unified line ends, and what follows it is what
followed it. -/
theorem exists_token_unified {content : Content} {more rest : List Char}
    {next : Option (List Char)}
    (hStep : nextStep pass rawText c (more ++ rest) = .token content more next) :
    ∃ d other, unifyLineEnds (c :: more) = d :: other ∧
      unifyLineEnds (c :: (more ++ rest)) = d :: (other ++ unifyLineEnds rest) ∧
      nextStep pass rawText d (other ++ unifyLineEnds rest) = .token content.unify other next := by
  obtain ⟨d, behind, hText, hUnifies⟩ := exists_step_unified hRaw (more ++ rest)
  rw [hStep] at hUnifies
  generalize hNext : nextStep pass rawText d behind = step at hUnifies
  cases hUnifies with
  | token join piece unified =>
      obtain ⟨rfl, hJoin⟩ := List.cons.inj join
      obtain rfl := List.append_cancel_left hJoin
      obtain ⟨rfl, rfl⟩ := List.cons.inj (hText.symm.trans unified)
      exact ⟨_, _, piece, hText, hNext⟩

theorem exists_lastToken_unified {content : Content} {more rest : List Char}
    (hStep : nextStep pass rawText c (more ++ rest) = .lastToken content more) :
    ∃ d other, unifyLineEnds (c :: more) = d :: other ∧
      unifyLineEnds (c :: (more ++ rest)) = d :: (other ++ unifyLineEnds rest) ∧
      nextStep pass rawText d (other ++ unifyLineEnds rest) = .lastToken content.unify other := by
  obtain ⟨d, behind, hText, hUnifies⟩ := exists_step_unified hRaw (more ++ rest)
  rw [hStep] at hUnifies
  generalize hNext : nextStep pass rawText d behind = step at hUnifies
  cases hUnifies with
  | lastToken join piece unified =>
      obtain ⟨rfl, hJoin⟩ := List.cons.inj join
      obtain rfl := List.append_cancel_left hJoin
      obtain ⟨rfl, rfl⟩ := List.cons.inj (hText.symm.trans unified)
      exact ⟨_, _, piece, hText, hNext⟩

/-- A pass stops at the same place. -/
theorem exists_stop_unified {rest : List Char} (hStep : nextStep pass rawText c rest = .stop) :
    ∃ d other, unifyLineEnds (c :: rest) = d :: other ∧ nextStep pass rawText d other = .stop := by
  obtain ⟨d, other, hText, hUnifies⟩ := exists_step_unified hRaw rest
  rw [hStep] at hUnifies
  generalize hNext : nextStep pass rawText d other = step at hUnifies
  cases hUnifies with
  | stop => exact ⟨d, other, hText, hNext⟩

end

/-- The tokens of a text with unified line ends. -/
theorem Scans.unify {pass : Pass} {rawText : Option (List Char)} {text dropped : List Char}
    {tokens : List Token} (hScans : Scans pass rawText text tokens dropped)
    (hRaw : ∀ name ∈ rawText, IsOneLine name) :
    Scans pass rawText (unifyLineEnds text) (tokens.map Token.unify) (unifyLineEnds dropped) := by
  induction hScans with
  | nil pass rawText => exact .nil pass rawText
  | token step tail ih =>
      obtain ⟨d, other, hPiece, hText, hStep⟩ := exists_token_unified hRaw step
      rw [hText, List.map_cons, Token.unify, hPiece]
      exact .token hStep (ih (isOneLine_of_nextStep step hRaw))
  | lastToken step tail ih =>
      obtain ⟨d, other, hPiece, hText, hStep⟩ := exists_lastToken_unified hRaw step
      rw [hText, List.map_cons, Token.unify, hPiece]
      exact .lastToken hStep (ih hRaw)
  | stop step tail ih =>
      obtain ⟨d, other, hText, hStep⟩ := exists_stop_unified hRaw step
      have hTail := ih hRaw
      rw [hText] at hTail ⊢
      exact .stop hStep hTail
  | @lastTokenEnd rawText c content more rest step =>
      obtain ⟨d, other, hPiece, hText, hStep⟩ := exists_lastToken_unified hRaw step
      have hEnd := Scans.lastTokenEnd hStep
      rw [scanEnd_unifyLineEnds] at hEnd
      rw [hText, List.map_cons, Token.unify, hPiece]
      exact hEnd
  | @stopEnd rawText c rest step =>
      obtain ⟨d, other, hText, hStep⟩ := exists_stop_unified hRaw step
      have hEnd := Scans.stopEnd hStep
      rw [← hText, scanEnd_unifyLineEnds] at hEnd
      exact hEnd

end AccessibleMarkup.Markup
