import AccessibleMarkup.Proofs.LineEndsInTags
import AccessibleMarkup.Proofs.Stability
import AccessibleMarkup.Proofs.TagAttributes

/-! Markup of a text whose line ends are unified. What begins with a `<` is the same kind of token.
A body ends at the same mark, for every mark holds characters of its own at its front, and markup
that is never finished is running text up to the same character. -/
namespace AccessibleMarkup.Markup

open AccessibleMarkup.Text

/-- What a token with unified line ends means. -/
def Content.unify : Content → Content
  | .openTag tag => .openTag tag.unify
  | .comment body => .comment (unifyLineEnds body)
  | .instruction body => .instruction (unifyLineEnds body)
  | .doctype body => .doctype (unifyLineEnds body)
  | .marked body => .marked (unifyLineEnds body)
  | .text => .text
  | .named name => .named name
  | .numeric numeral => .numeric numeral
  | .closeTag name => .closeTag name
  | .ignored => .ignored

/-- A mark that stands where it stood when line ends are unified. It holds solid characters at
its front. -/
structure Mark.BlindToLineEnds (mark : Mark) : Prop where
  unify : ∀ text, mark (unifyLineEnds text) =
    (mark text).map (Prod.map unifyLineEnds unifyLineEnds)
  return_eq_none : ∀ rest, mark ('\r' :: rest) = none
  feed_eq_none : ∀ rest, mark ('\n' :: rest) = none

/-- White space before a mark is white space with unified line ends. -/
theorem blankThen_unifyLineEnds {mark : Char} (hSolid : isBlank mark = false) (text : List Char) :
    blankThen mark (unifyLineEnds text) =
      (blankThen mark text).map (Prod.map unifyLineEnds unifyLineEnds) := by
  have hReturn : mark ≠ '\r' := by
    rintro rfl
    cases hSolid
  have hFeed : mark ≠ '\n' := by
    rintro rfl
    cases hSolid
  simp only [blankThen, splitBlank_unifyLineEnds]
  rcases hSplit : splitBlank text with ⟨blank, - | ⟨c, rest⟩⟩
  · rfl
  · have hC : isBlank c = false := (splitBlank_eq_iff.1 hSplit).2.2
    have hOther : c ≠ '\r' := by
      rintro rfl
      cases hC
    simp only [unifyLineEnds_cons hOther]
    split
    · next hMark =>
        rw [hMark, Option.map_some, Prod.map_apply, unifyLineEnds_concat hReturn hFeed]
    · rfl

/-- A mark that is read behind a front of one line. -/
theorem Mark.blindToLineEnds_of_front {mark inner : Mark} {c : Char} {front : List Char}
    (hFront : IsOneLine (c :: front))
    (hMark : ∀ rest, mark (c :: (front ++ rest)) =
      (inner rest).map fun found => (c :: (front ++ found.1), found.2))
    (hNone : ∀ text, ¬ c :: front <+: text → mark text = none)
    (hInner : ∀ rest, inner (unifyLineEnds rest) =
      (inner rest).map (Prod.map unifyLineEnds unifyLineEnds)) : mark.BlindToLineEnds := by
  obtain ⟨hReturn, hFeed, -⟩ := isOneLine_cons.1 hFront
  refine ⟨fun text => ?_, fun rest => hNone _ fun hPrefix => ?_,
    fun rest => hNone _ fun hPrefix => ?_⟩
  · by_cases hText : c :: front <+: text
    · obtain ⟨rest, rfl⟩ := hText
      rw [unifyLineEnds_append_of_oneLine hFront, List.cons_append, List.cons_append, hMark, hMark,
        hInner, Option.map_map, Option.map_map]
      refine Option.map_congr fun found _ => ?_
      have hJoin := unifyLineEnds_append_of_oneLine hFront found.1
      simp only [List.cons_append] at hJoin
      simp [hJoin]
    · rw [hNone text hText]
      refine hNone _ fun hPrefix => hText ?_
      obtain ⟨rest, hRest⟩ := hPrefix
      obtain ⟨left, hLeft, -⟩ := (unifyLineEnds_eq_append_iff hFront).1 hRest.symm
      exact ⟨left, hLeft.symm⟩
  · exact hReturn (List.cons_prefix_cons.1 hPrefix).1
  · exact hFeed (List.cons_prefix_cons.1 hPrefix).1

theorem commentEnd_blindToLineEnds : Mark.BlindToLineEnds commentEnd := by
  refine Mark.blindToLineEnds_of_front (show IsOneLine ['-', '-'] by decide) (fun _ => rfl)
    (fun text hText => ?_) (blankThen_unifyLineEnds not_isBlank_end)
  unfold commentEnd
  split
  · exact absurd ⟨_, rfl⟩ hText
  · rfl

theorem shortSectionEnd_blindToLineEnds : Mark.BlindToLineEnds shortSectionEnd := by
  refine Mark.blindToLineEnds_of_front (show IsOneLine [']'] by decide) (fun _ => rfl)
    (fun text hText => ?_) (blankThen_unifyLineEnds not_isBlank_end)
  unfold shortSectionEnd
  split
  · exact absurd ⟨_, rfl⟩ hText
  · rfl

/-- The long end of a section stands where it stood: it is the short one behind another bracket,
with white space between. -/
theorem longSectionEnd_blindToLineEnds : Mark.BlindToLineEnds longSectionEnd := by
  refine @Mark.blindToLineEnds_of_front longSectionEnd
    (fun rest => (blankThen ']' rest).bind fun inner =>
      (blankThen '>' inner.2).map fun outer => (inner.1 ++ outer.1, outer.2))
    ']' [] (by decide) (fun rest => ?_) (fun text hText => ?_) fun rest => ?_
  · simp only [List.nil_append, longSectionEnd, Option.bind_eq_bind]
    cases blankThen ']' rest with
    | none => rfl
    | some inner => cases hOuter : blankThen '>' inner.2 <;> simp [hOuter]
  · unfold longSectionEnd
    split
    · exact absurd ⟨_, rfl⟩ hText
    · rfl
  · rw [blankThen_unifyLineEnds (by decide)]
    cases hInner : blankThen ']' rest with
    | none => rfl
    | some found =>
        obtain ⟨inner, behind⟩ := found
        obtain ⟨blank, hBlank, -⟩ := blankThen_eq_some hInner
        have hLast : inner.getLast? ≠ some '\r' := by
          rw [show inner = blank ++ [']'] from hBlank, List.getLast?_concat]
          decide
        simp only [Option.map_some, Prod.map_apply, Option.bind_some,
          blankThen_unifyLineEnds not_isBlank_end, Option.map_map]
        refine Option.map_congr fun outer _ => ?_
        simp [unifyLineEnds_append_of_getLast? hLast]

/-- The search for a mark ends at the same place in the text with unified line ends. -/
theorem splitAtMark?_unifyLineEnds {mark : Mark} (hMark : mark.BlindToLineEnds)
    (text : List Char) :
    splitAtMark? mark (unifyLineEnds text) =
      (splitAtMark? mark text).map (Prod.map unifyLineEnds unifyLineEnds) := by
  have hTest : RunTest.BlindToLineEnds fun c rest => (mark (c :: rest)).isNone := by
    refine ⟨fun c rest hC => ?_, fun rest other => ?_⟩
    · rw [← unifyLineEnds_cons hC, hMark.unify, Option.isNone_map]
    · rw [hMark.return_eq_none, hMark.feed_eq_none]
  have hContains := contains_unifyLineEnds (show '>' ≠ '\r' by decide) (by decide) text
  simp only [splitAtMark?, hContains, splitRun_unifyLineEnds hTest, hMark.unify]
  split
  · rw [Option.map_map, Option.map_map]
    exact Option.map_congr fun found _ => rfl
  · rfl

theorem matchesLetter_lineEnd {letter c : Char} (hReturn : letter ≠ '\r') (hFeed : letter ≠ '\n')
    (hC : c = '\r' ∨ c = '\n') : matchesLetter letter c = false := by
  rcases hC with rfl | rfl
  · simp [matchesLetter, show Char.toLower '\r' = '\r' from rfl, hReturn.symm]
  · simp [matchesLetter, show Char.toLower '\n' = '\n' from rfl, hFeed.symm]

/-- A word is found where it was, since it holds no line end. -/
theorem afterWord?_unifyLineEnds {word : List Char} (hWord : IsOneLine word) (text : List Char) :
    afterWord? word (unifyLineEnds text) = (afterWord? word text).map unifyLineEnds := by
  induction word generalizing text with
  | nil => rfl
  | cons letter word ih =>
      obtain ⟨hReturn, hFeed, hWord⟩ := isOneLine_cons.1 hWord
      cases text using unifyLineEnds_cases with
      | nil => rfl
      | turned rest left hLeft =>
          rw [hLeft, afterWord?, afterWord?, matchesLetter_lineEnd hReturn hFeed (.inr rfl),
            matchesLetter_lineEnd hReturn hFeed (.inl rfl)]
          rfl
      | kept c rest hC =>
          rw [unifyLineEnds_cons hC, afterWord?, afterWord?]
          split
          · exact ih hWord rest
          · rfl

theorem exists_of_looksLikeEndOf {name text : List Char}
    (hLooks : looksLikeEndOf name text = true) : ∃ rest, text = '<' :: '/' :: rest := by
  unfold looksLikeEndOf at hLooks
  split at hLooks
  · exact ⟨_, rfl⟩
  · cases hLooks

/-- The body of an element ends at the same place. -/
theorem looksLikeEndOf_unifyLineEnds {name : List Char} (hName : IsOneLine name)
    (text : List Char) : looksLikeEndOf name (unifyLineEnds text) = looksLikeEndOf name text := by
  have hFront : IsOneLine ['<', '/'] := by decide
  unfold looksLikeEndOf
  split
  · next rest hText =>
      obtain ⟨rest, rfl, rfl⟩ := (unifyLineEnds_eq_append_iff hFront).1 hText
      simp only [List.cons_append, List.nil_append, splitBlank_unifyLineEnds,
        afterWord?_unifyLineEnds hName]
      cases afterWord? name (splitBlank rest).2 with
      | none => rfl
      | some left =>
          simp only [Option.map_some, blankThen_unifyLineEnds not_isBlank_end,
            Option.isSome_map]
  · next hText =>
      split
      · exact absurd (unifyLineEnds_append_of_oneLine hFront _) (hText _)
      · rfl

theorem allBlank_unifyLineEnds (text : List Char) : allBlank (unifyLineEnds text) = allBlank text :=
  all_unifyLineEnds rfl text

/-- An end tag closes the element that it closed. -/
theorem plainEndName?_unifyLineEnds (body : List Char) :
    plainEndName? (unifyLineEnds body) = plainEndName? body := by
  simp only [plainEndName?, splitBlank_unifyLineEnds]
  rcases hSplit : splitBlank body with ⟨blank, - | ⟨c, rest⟩⟩
  · rfl
  · have hC : isBlank c = false := (splitBlank_eq_iff.1 hSplit).2.2
    have hReturn : c ≠ '\r' := by
      rintro rfl
      cases hC
    simp only [unifyLineEnds_cons hReturn, allBlank_unifyLineEnds,
      @splitRun_unifyLineEnds_of_solid continuesEndName rfl rfl]

theorem beginsDoctype_iff {text : List Char} :
    beginsDoctype text = true ↔ ∃ word left, text = word ++ left ∧ word.length = 7 ∧
      word.map Char.toLower = "doctype".toList := by
  rw [beginsDoctype, decide_eq_true_eq]
  constructor
  · intro hWord
    have hLength := congrArg List.length hWord
    rw [List.length_map] at hLength
    exact ⟨text.take 7, text.drop 7, (List.take_append_drop 7 text).symm, hLength, hWord⟩
  · rintro ⟨word, left, rfl, hLength, hWord⟩
    rwa [List.take_left' hLength]

theorem isOneLine_of_doctype {word : List Char}
    (hWord : word.map Char.toLower = "doctype".toList) : IsOneLine word := by
  have hLower {c : Char} (hMem : c ∈ word) : c.toLower ∈ "doctype".toList :=
    hWord ▸ List.mem_map_of_mem hMem
  exact ⟨fun hMem => absurd (hLower hMem) (by decide), fun hMem => absurd (hLower hMem) (by decide)⟩

theorem beginsDoctype_unifyLineEnds (text : List Char) :
    beginsDoctype (unifyLineEnds text) = beginsDoctype text := by
  rw [Bool.eq_iff_iff, beginsDoctype_iff, beginsDoctype_iff]
  constructor
  · rintro ⟨word, rest, hText, hLength, hWord⟩
    obtain ⟨left, hLeft, -⟩ := (unifyLineEnds_eq_append_iff (isOneLine_of_doctype hWord)).1 hText
    exact ⟨word, left, hLeft, hLength, hWord⟩
  · rintro ⟨word, left, rfl, hLength, hWord⟩
    exact ⟨word, unifyLineEnds left, unifyLineEnds_append_of_oneLine (isOneLine_of_doctype hWord) _,
      hLength, hWord⟩

/-- What is next in a text, and in the text with unified line ends: the same kind of step, which
takes the same piece. -/
inductive Step.Unifies (text : List Char) : Step → Step → Prop where
  | token {content : Content} {next : Option (List Char)} {c d : Char}
      {more other left : List Char} (join : text = c :: (more ++ left))
      (piece : unifyLineEnds (c :: more) = d :: other)
      (unified : unifyLineEnds text = d :: (other ++ unifyLineEnds left)) :
      Step.Unifies text (.token content more next) (.token content.unify other next)
  | lastToken {content : Content} {c d : Char} {more other left : List Char}
      (join : text = c :: (more ++ left)) (piece : unifyLineEnds (c :: more) = d :: other)
      (unified : unifyLineEnds text = d :: (other ++ unifyLineEnds left)) :
      Step.Unifies text (.lastToken content more) (.lastToken content.unify other)
  | stop : Step.Unifies text .stop .stop
  | reject (reason other : Rejection) : Step.Unifies text (.reject reason) (.reject other)

namespace Step.Unifies

section
variable {c : Char} (hC : c ≠ '\r') (content : Content) (more left : List Char)
include hC

/-- A token that does not end with a carriage return has its line ends unified by itself. -/
theorem token_behind (hLast : more.getLast? ≠ some '\r') (next : Option (List Char)) :
    Unifies (c :: (more ++ left)) (.token content more next)
      (.token content.unify (unifyLineEnds more) next) := by
  refine .token rfl (unifyLineEnds_cons hC more) ?_
  rw [unifyLineEnds_cons hC, unifyLineEnds_append_of_getLast? hLast]

/-- A token that no line feed follows has its line ends unified by itself. -/
theorem token_before (hLeft : feedNext left = false) (next : Option (List Char)) :
    Unifies (c :: (more ++ left)) (.token content more next)
      (.token content.unify (unifyLineEnds more) next) := by
  refine .token rfl (unifyLineEnds_cons hC more) ?_
  rw [unifyLineEnds_cons hC, unifyLineEnds_append_of_feed hLeft]

theorem token_of_oneLine (hMore : IsOneLine more) (next : Option (List Char)) :
    Unifies (c :: (more ++ left)) (.token content more next) (.token content.unify more next) := by
  have hToken := token_behind hC content more left hMore.getLast?_ne_return next
  rwa [hMore.unifyLineEnds_eq] at hToken

theorem lastToken_of_oneLine (hMore : IsOneLine more) :
    Unifies (c :: (more ++ left)) (.lastToken content more) (.lastToken content.unify more) := by
  have hPiece := unifyLineEnds_cons hC more
  rw [hMore.unifyLineEnds_eq] at hPiece
  refine .lastToken rfl hPiece ?_
  rw [unifyLineEnds_cons hC, unifyLineEnds_append_of_oneLine hMore]

end

end Step.Unifies

section
variable {c : Char} (hC : c ≠ '\r') (pass : Pass) (rest : List Char)
include hC

/-- Markup that does not end is the same piece of the text with unified line ends. -/
theorem unfinished_unifies :
    Step.Unifies (c :: rest) (unfinished pass rest) (unfinished pass (unifyLineEnds rest)) := by
  cases pass with
  | first => exact .stop
  | last =>
      simp only [unfinished, @splitAtFirst?_unifyLineEnds '>' (by decide) (by decide),
        @splitAtFirst?_unifyLineEnds '<' (by decide) (by decide)]
      cases hEnd : splitAtFirst? '>' rest with
      | some found =>
          obtain ⟨before, left⟩ := found
          have hToken := Step.Unifies.token_behind hC .text (before ++ ['>']) left (by simp) none
          rw [unifyLineEnds_concat (by decide) (by decide), List.append_assoc] at hToken
          rw [splitAtFirst?_eq_some hEnd]
          exact hToken
      | none =>
          cases hOpen : splitAtFirst? '<' rest with
          | some found =>
              obtain ⟨before, left⟩ := found
              rw [splitAtFirst?_eq_some hOpen]
              exact .token_before hC .text before ('<' :: left) rfl none
          | none => exact .token_behind hC .text [] rest (by simp) none

/-- An opening tag is the same piece of the text with unified line ends. -/
theorem openTagStep_unifies :
    Step.Unifies (c :: rest) (openTagStep pass rest) (openTagStep pass (unifyLineEnds rest)) := by
  rw [openTagStep_eq, openTagStep_eq, readOpenTag_unifyLineEnds]
  cases hRead : readOpenTag rest with
  | complete tag left =>
      have hJoin := sourceTail_append_of_readOpenTag hRead
      rw [← hJoin]
      simp only [TagReading.unify, sourceTail_unify_of_readOpenTag hRead]
      refine Step.Unifies.token_behind hC (.openTag tag) tag.sourceTail left ?_ _
      rw [OpenTag.getLast?_sourceTail]
      decide
  | broken name =>
      obtain ⟨hName, -, left, rfl⟩ := readOpenTag_eq_broken_iff.1 hRead
      have hToken := Step.Unifies.token_before hC .text name ('\x00' :: left) rfl none
      rw [(isOneLine_of_isTagName hName).unifyLineEnds_eq] at hToken
      exact hToken
  | incomplete => exact unfinished_unifies hC pass rest

/-- Markup up to the first `>` behind a front without line ends. -/
theorem markupToEnd_unifies {front text body left : List Char} (hFront : IsOneLine front)
    (hSplit : splitAtFirst? '>' text = some (body, left)) (content : Content)
    (next : Option (List Char)) :
    Step.Unifies (c :: (front ++ text)) (.token content (front ++ body ++ ['>']) next)
      (.token content.unify (front ++ unifyLineEnds body ++ ['>']) next) := by
  have hToken := Step.Unifies.token_behind hC content (front ++ body ++ ['>']) left (by simp) next
  rw [unifyLineEnds_concat (by decide) (by decide),
    unifyLineEnds_append_of_oneLine hFront] at hToken
  rw [splitAtFirst?_eq_some hSplit]
  simpa using hToken

/-- An end tag is the same piece of the text with unified line ends. -/
theorem endTagStep_unifies (text : List Char) :
    Step.Unifies (c :: '/' :: text) (endTagStep pass ('/' :: text) text)
      (endTagStep pass ('/' :: unifyLineEnds text) (unifyLineEnds text)) := by
  have hUnfinished := unfinished_unifies hC pass ('/' :: text)
  rw [unifyLineEnds_cons (by decide)] at hUnfinished
  simp only [endTagStep, @splitAtFirst?_unifyLineEnds '>' (by decide) (by decide)]
  cases hSplit : splitAtFirst? '>' text with
  | none => exact hUnfinished
  | some found =>
      obtain ⟨body, left⟩ := found
      have hToken := markupToEnd_unifies hC (show IsOneLine ['/'] by decide) hSplit
      simp only [Option.map_some, Prod.map_apply, plainEndName?_unifyLineEnds,
        readTagName?_unifyLineEnds]
      cases plainEndName? body with
      | some name => exact hToken (.closeTag name) none
      | none =>
          cases readTagName? body with
          | some name => exact hToken (.closeTag name.1) none
          | none =>
              simp only [Option.map_none, isEmpty_unifyLineEnds]
              split
              · exact hToken .ignored none
              · exact hToken (.comment body) none

/-- Markup up to a mark behind a front without line ends. -/
theorem markupToMark_unifies {mark : Mark} (hMark : mark.BlindToLineEnds) (hJoins : mark.Joins)
    (hEnds : mark.HoldsNoQuote) {front text body found : List Char} (hFront : IsOneLine front)
    (hSplit : splitAtMark? mark text = some (body, found)) (content : Content) :
    Step.Unifies (c :: (front ++ text)) (.token content (front ++ body ++ found) none)
      (.token content.unify (front ++ unifyLineEnds body ++ unifyLineEnds found) none) := by
  obtain ⟨left, rfl, hFound, -⟩ := exists_of_splitAtMark? hJoins hSplit
  obtain ⟨inner, hInner, -⟩ := hEnds _ _ hFound
  have hNext : feedNext found = false := by
    cases hFeed : feedNext found with
    | false => rfl
    | true =>
        obtain ⟨rest, rfl⟩ := head?_of_feedNext hFeed
        rw [List.cons_append, hMark.feed_eq_none] at hFound
        cases hFound
  have hToken := Step.Unifies.token_behind hC content (front ++ body ++ found) left
    (by simp [show found = inner ++ ['>'] from hInner]) none
  rw [unifyLineEnds_append_of_feed hNext, unifyLineEnds_append_of_oneLine hFront] at hToken
  simpa using hToken

/-- A marked section is the same piece of the text with unified line ends. -/
theorem sectionStep_unifies (text : List Char) :
    Step.Unifies (c :: '!' :: '[' :: text) (sectionStep pass ('!' :: '[' :: text) text)
      (sectionStep pass ('!' :: '[' :: unifyLineEnds text) (unifyLineEnds text)) := by
  have hUnfinished := unfinished_unifies hC pass ('!' :: '[' :: text)
  rw [unifyLineEnds_cons (by decide), unifyLineEnds_cons (by decide)] at hUnfinished
  cases text using unifyLineEnds_cases with
  | nil => exact hUnfinished
  | turned tail left hLeft =>
      rw [hLeft]
      exact .reject _ _
  | kept d tail hReturn =>
      have hSplit {mark : Mark} (hMark : mark.BlindToLineEnds) :=
        splitAtMark?_unifyLineEnds hMark (d :: tail)
      rw [unifyLineEnds_cons hReturn] at hUnfinished hSplit ⊢
      simp only [sectionStep, @splitRun_unifyLineEnds_of_solid continuesSectionName rfl rfl,
        splitBlank_unifyLineEnds, isEmpty_unifyLineEnds]
      split
      · exact .reject _ _
      · split
        · exact hUnfinished
        · split
          · exact .reject _ _
          · next mark hMark =>
              obtain ⟨hBlind, hJoins, hEnds⟩ :
                  mark.BlindToLineEnds ∧ mark.Joins ∧ mark.HoldsNoQuote := by
                rcases eq_of_sectionMark hMark with rfl | rfl
                · exact ⟨longSectionEnd_blindToLineEnds, longSectionEnd_joins,
                    longSectionEnd_holdsNoQuote⟩
                · exact ⟨shortSectionEnd_blindToLineEnds, shortSectionEnd_joins,
                    shortSectionEnd_holdsNoQuote⟩
              rw [hSplit hBlind]
              cases hFound : splitAtMark? mark (d :: tail) with
              | none => exact hUnfinished
              | some found =>
                  exact markupToMark_unifies hC hBlind hJoins hEnds
                    (show IsOneLine ['!', '['] by decide) hFound (.marked found.1)

/-- A declaration is the same piece of the text with unified line ends. -/
theorem declarationStep_unifies {text : List Char} (hSection : text.head? ≠ some '[')
    (hComment : ¬ ['-', '-'] <+: text) :
    Step.Unifies (c :: '!' :: text) (markupStep pass ('!' :: text))
      (markupStep pass ('!' :: unifyLineEnds text)) := by
  have hUnfinished := unfinished_unifies hC pass ('!' :: text)
  rw [unifyLineEnds_cons (by decide)] at hUnfinished
  have hOtherSection : (unifyLineEnds text).head? ≠ some '[' := fun hHead =>
    hSection ((head?_unifyLineEnds_eq_some (by decide)).1 hHead).1
  have hOtherComment : ¬ ['-', '-'] <+: unifyLineEnds text := by
    rintro ⟨rest, hRest⟩
    obtain ⟨left, hLeft, -⟩ := (unifyLineEnds_eq_append_iff (by decide)).1 hRest.symm
    exact hComment ⟨left, hLeft.symm⟩
  rw [markupStep_declaration hSection hComment,
    markupStep_declaration hOtherSection hOtherComment, beginsDoctype_unifyLineEnds]
  split
  · next hDoctype =>
      obtain ⟨word, left, rfl, hLength, hWord⟩ := beginsDoctype_iff.1 hDoctype
      have hOneLine := isOneLine_of_doctype hWord
      rw [unifyLineEnds_append_of_oneLine hOneLine] at hUnfinished ⊢
      simp only [List.take_left' hLength, List.drop_left' hLength,
        @splitAtFirst?_unifyLineEnds '>' (by decide) (by decide)]
      cases hSplit : splitAtFirst? '>' left with
      | none => exact hUnfinished
      | some found =>
          have hFront : IsOneLine ('!' :: word) :=
            isOneLine_cons.2 ⟨by decide, by decide, hOneLine⟩
          have hToken := markupToEnd_unifies hC hFront hSplit (.doctype (word ++ found.1)) none
          rw [Content.unify, unifyLineEnds_append_of_oneLine hOneLine] at hToken
          exact hToken
  · simp only [@splitAtFirst?_unifyLineEnds '>' (by decide) (by decide)]
    cases hSplit : splitAtFirst? '>' text with
    | none => exact hUnfinished
    | some found =>
        exact markupToEnd_unifies hC (show IsOneLine ['!'] by decide) hSplit (.comment found.1) none

theorem commentStep_unifies (text : List Char) :
    Step.Unifies (c :: '!' :: '-' :: '-' :: text) (markupStep pass ('!' :: '-' :: '-' :: text))
      (markupStep pass ('!' :: '-' :: '-' :: unifyLineEnds text)) := by
  have hFront : IsOneLine ['!', '-', '-'] := by decide
  have hUnfinished := unfinished_unifies hC pass ('!' :: '-' :: '-' :: text)
  have hRest := unifyLineEnds_append_of_oneLine hFront text
  simp only [List.cons_append, List.nil_append] at hRest
  rw [hRest] at hUnfinished
  rw [markupStep_comment, markupStep_comment, splitAtMark?_unifyLineEnds commentEnd_blindToLineEnds]
  cases hSplit : splitAtMark? commentEnd text with
  | none => exact hUnfinished
  | some found =>
      exact markupToMark_unifies hC commentEnd_blindToLineEnds commentEnd_joins
        commentEnd_holdsNoQuote hFront hSplit (.comment found.1)

theorem instructionStep_unifies (text : List Char) :
    Step.Unifies (c :: '?' :: text) (markupStep pass ('?' :: text))
      (markupStep pass ('?' :: unifyLineEnds text)) := by
  have hUnfinished := unfinished_unifies hC pass ('?' :: text)
  rw [unifyLineEnds_cons (by decide)] at hUnfinished
  rw [markupStep_instruction, markupStep_instruction,
    @splitAtFirst?_unifyLineEnds '>' (by decide) (by decide)]
  cases hSplit : splitAtFirst? '>' text with
  | none => exact hUnfinished
  | some found =>
      exact markupToEnd_unifies hC (show IsOneLine ['?'] by decide) hSplit
        (.instruction found.1) none

/-- Markup of a text with unified line ends. -/
theorem markupStep_unifies :
    Step.Unifies (c :: rest) (markupStep pass rest) (markupStep pass (unifyLineEnds rest)) := by
  have hText : Step.Unifies (c :: rest) (.token .text [] none) (.token .text [] none) :=
    .token_behind hC .text [] rest (by simp) none
  cases rest using unifyLineEnds_cases with
  | nil => exact .stop
  | turned tail left hLeft =>
      rw [hLeft]
      exact hText
  | kept d tail hReturn =>
      have hOpenTag := openTagStep_unifies hC pass (d :: tail)
      rw [unifyLineEnds_cons hReturn] at hOpenTag ⊢
      by_cases hSlash : d = '/'
      · subst hSlash
        exact endTagStep_unifies hC pass tail
      by_cases hQuery : d = '?'
      · subst hQuery
        exact instructionStep_unifies hC pass tail
      by_cases hBang : d = '!'
      · subst hBang
        by_cases hSection : tail.head? = some '['
        · obtain ⟨text, rfl⟩ := List.head?_eq_some_iff.1 hSection
          rw [unifyLineEnds_cons (by decide)]
          exact sectionStep_unifies hC pass text
        by_cases hComment : ['-', '-'] <+: tail
        · obtain ⟨text, rfl⟩ := hComment
          rw [unifyLineEnds_append_of_oneLine (by decide)]
          exact commentStep_unifies hC pass text
        exact declarationStep_unifies hC pass hSection hComment
      rw [markupStep_other hSlash hQuery hBang, markupStep_other hSlash hQuery hBang]
      split
      · exact hOpenTag
      · exact hText

end

end AccessibleMarkup.Markup
