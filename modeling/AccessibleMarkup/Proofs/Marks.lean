import AccessibleMarkup.Proofs.Assignment
import AccessibleMarkup.Proofs.Consumption

/-! Marks that end markup: the end of a comment and those of a marked section. Each holds a `>` and
is found at the same place whatever stands behind this `>`, so markup that a mark ended before ends
there in any other text that begins with it. -/
namespace AccessibleMarkup.Markup

open AccessibleMarkup.Text

/-- A run that stops within a piece of the text stops there whatever follows. -/
theorem splitRun_append_of_mem {test : Char → Bool} {front : List Char} {c : Char}
    (hMem : c ∈ front) (hTest : test c = false) (rest : List Char) :
    splitRun (fun c _ => test c) (front ++ rest) =
      ((splitRun (fun c _ => test c) front).1, (splitRun (fun c _ => test c) front).2 ++ rest) ∧
      c ∈ (splitRun (fun c _ => test c) front).2 := by
  rcases hSplit : splitRun (fun c _ => test c) front with ⟨run, behind⟩
  obtain ⟨rfl, hRun, hStops⟩ := splitRun_eq_iff.1 hSplit
  have hBehind : c ∈ behind := by
    rcases List.mem_append.1 hMem with hMem | hMem
    · simp [hRun c hMem] at hTest
    · exact hMem
  refine ⟨splitRun_eq_iff.2 ⟨by simp, hRun, hStops.append (List.ne_nil_of_mem hBehind) rest⟩, ?_⟩
  exact hBehind

/-- White space before a `>` ends whatever follows the `>`. -/
theorem splitBlank_append_of_mem {front : List Char} (hEnd : '>' ∈ front) (rest : List Char) :
    splitBlank (front ++ rest) = ((splitBlank front).1, (splitBlank front).2 ++ rest) ∧
      '>' ∈ (splitBlank front).2 :=
  splitRun_append_of_mem hEnd (by decide) rest

/-- A mark is found or not found at the front of a text that holds a `>`, whatever follows. -/
def Mark.Settles (mark : Mark) : Prop :=
  ∀ front : List Char, '>' ∈ front → ∀ rest : List Char,
    mark (front ++ rest) = (mark front).map fun found => (found.1, found.2 ++ rest)

/-- Whether a mark follows white space is told by the text up to the `>`. -/
theorem blankThen_settles (mark : Char) : Mark.Settles (blankThen mark) := by
  intro front hEnd rest
  obtain ⟨hSplit, hMem⟩ := splitBlank_append_of_mem hEnd rest
  simp only [blankThen, hSplit]
  rcases hFront : splitBlank front with ⟨blank, behind⟩
  cases behind with
  | nil => simp [hFront] at hMem
  | cons c behind =>
      simp only [List.cons_append]
      split <;> rfl

/-- What is found is white space and the character behind it. -/
theorem blankThen_eq_some {mark : Char} {text : List Char} {found : List Char × List Char}
    (hMark : blankThen mark text = some found) :
    ∃ blank, found.1 = blank ++ [mark] ∧ ∀ c ∈ blank, isBlank c = true := by
  rcases hSplit : splitBlank text with ⟨blank, behind⟩
  obtain ⟨-, hBlank, -⟩ := splitBlank_eq_iff.1 hSplit
  simp only [blankThen, hSplit] at hMark
  split at hMark
  · simp at hMark
  · rename_i hPair
    cases hPair
    split at hMark
    · rename_i hC
      cases hMark
      exact ⟨blank, by rw [hC], hBlank⟩
    · simp at hMark

theorem not_mem_of_isBlank {c : Char} {blank : List Char} (hBlank : ∀ d ∈ blank, isBlank d = true)
    (hSolid : isBlank c = false) : c ∉ blank := by
  intro hMem
  rw [hBlank c hMem] at hSolid
  simp at hSolid

/-- White space and a character that is not the end hold no end. -/
theorem end_not_mem_blankThen {mark : Char} {text : List Char} {found : List Char × List Char}
    (hMark : blankThen mark text = some found) (hEnd : '>' ≠ mark) : '>' ∉ found.1 := by
  obtain ⟨blank, hFound, hBlank⟩ := blankThen_eq_some hMark
  have hSolid : '>' ∉ blank := not_mem_of_isBlank hBlank (by decide)
  simp [hFound, hSolid, hEnd]

theorem commentEnd_other {c d : Char} (hHyphens : ¬ (c = '-' ∧ d = '-')) (text : List Char) :
    commentEnd (c :: d :: text) = none := by
  unfold commentEnd
  split
  · rename_i tail hText
    cases hText
    exact absurd ⟨rfl, rfl⟩ hHyphens
  · rfl

/-- Whether a comment ends is told by the text up to the `>`. -/
theorem commentEnd_settles : Mark.Settles commentEnd := by
  intro front hEnd rest
  match front with
  | [] => simp at hEnd
  | [c] =>
      have hC : '>' = c := by simpa using hEnd
      subst hC
      rfl
  | c :: d :: front =>
      by_cases hHyphens : c = '-' ∧ d = '-'
      · obtain ⟨rfl, rfl⟩ := hHyphens
        have hFront : '>' ∈ front := by simpa using hEnd
        simp [commentEnd, blankThen_settles '>' front hFront rest, Function.comp_def]
      · simp [commentEnd_other hHyphens]

theorem shortSectionEnd_other {c : Char} (hBracket : c ≠ ']') (text : List Char) :
    shortSectionEnd (c :: text) = none := by
  unfold shortSectionEnd
  split
  · rename_i tail hText
    cases hText
    exact absurd rfl hBracket
  · rfl

theorem shortSectionEnd_settles : Mark.Settles shortSectionEnd := by
  intro front hEnd rest
  match front with
  | [] => simp at hEnd
  | c :: front =>
      by_cases hBracket : c = ']'
      · subst hBracket
        have hFront : '>' ∈ front := by simpa using hEnd
        simp [shortSectionEnd, blankThen_settles '>' front hFront rest, Function.comp_def]
      · simp [shortSectionEnd_other hBracket]

theorem longSectionEnd_other {c : Char} (hBracket : c ≠ ']') (text : List Char) :
    longSectionEnd (c :: text) = none := by
  unfold longSectionEnd
  split
  · rename_i tail hText
    cases hText
    exact absurd rfl hBracket
  · rfl

/-- Whether a section ends is told by the text up to the `>`, as neither the bracket nor the white
space before it is the end. -/
theorem longSectionEnd_settles : Mark.Settles longSectionEnd := by
  intro front hEnd rest
  match front with
  | [] => simp at hEnd
  | c :: front =>
      by_cases hBracket : c = ']'
      · subst hBracket
        have hFront : '>' ∈ front := by simpa using hEnd
        simp only [longSectionEnd, List.cons_append, blankThen_settles ']' front hFront rest]
        cases hInner : blankThen ']' front with
        | none => rfl
        | some inner =>
            have hBehind : '>' ∈ inner.2 := by
              rw [← blankThen_suffix hInner] at hFront
              rcases List.mem_append.1 hFront with hMem | hMem
              · exact absurd hMem (end_not_mem_blankThen hInner (by decide))
              · exact hMem
            simp only [Option.map_some, Option.bind_eq_bind, Option.bind_some,
              blankThen_settles '>' inner.2 hBehind rest]
            cases blankThen '>' inner.2 <;> rfl
      · simp [longSectionEnd_other hBracket]

/-- A mark is solid up to the `>` that it ends with: it holds no double quote. -/
def Mark.HoldsNoQuote (mark : Mark) : Prop :=
  ∀ text found, mark text = some found → ∃ front, found.1 = front ++ ['>'] ∧ '"' ∉ front

/-- A mark that is solid up to its `>` holds it. -/
theorem Mark.HoldsNoQuote.holdsEnd {mark : Mark} (hNoQuote : mark.HoldsNoQuote) :
    ∀ text found, mark text = some found → '>' ∈ found.1 := by
  intro text found hMark
  obtain ⟨front, hFront, -⟩ := hNoQuote text found hMark
  simp [hFront]

theorem blankThen_holdsNoQuote : Mark.HoldsNoQuote (blankThen '>') := by
  intro text found hMark
  obtain ⟨blank, hFound, hBlank⟩ := blankThen_eq_some hMark
  exact ⟨blank, hFound, not_mem_of_isBlank hBlank (by decide)⟩

theorem commentEnd_holdsNoQuote : Mark.HoldsNoQuote commentEnd := by
  intro text found hMark
  unfold commentEnd at hMark
  split at hMark
  · obtain ⟨inner, hInner, rfl⟩ := Option.map_eq_some_iff.1 hMark
    obtain ⟨blank, hBlank, hQuote⟩ := blankThen_holdsNoQuote _ _ hInner
    exact ⟨'-' :: '-' :: blank, by simp [hBlank], by simp [hQuote]⟩
  · simp at hMark

theorem shortSectionEnd_holdsNoQuote : Mark.HoldsNoQuote shortSectionEnd := by
  intro text found hMark
  unfold shortSectionEnd at hMark
  split at hMark
  · obtain ⟨inner, hInner, rfl⟩ := Option.map_eq_some_iff.1 hMark
    obtain ⟨blank, hBlank, hQuote⟩ := blankThen_holdsNoQuote _ _ hInner
    exact ⟨']' :: blank, by simp [hBlank], by simp [hQuote]⟩
  · simp at hMark

theorem longSectionEnd_holdsNoQuote : Mark.HoldsNoQuote longSectionEnd := by
  intro text found hMark
  unfold longSectionEnd at hMark
  split at hMark
  · obtain ⟨inner, hInner, hMark⟩ := Option.bind_eq_some_iff.1 hMark
    obtain ⟨outer, hOuter, hMark⟩ := Option.bind_eq_some_iff.1 hMark
    cases hMark
    obtain ⟨blank, hFound, hBlank⟩ := blankThen_eq_some hInner
    obtain ⟨more, hMore, hQuote⟩ := blankThen_holdsNoQuote _ _ hOuter
    have hBlankQuote : '"' ∉ blank := not_mem_of_isBlank hBlank (by decide)
    exact ⟨']' :: (blank ++ [']']) ++ more, by simp [hFound, hMore], by simp [hBlankQuote, hQuote]⟩
  · simp at hMark

/-- A mark that ends with `>` and is found there whatever follows. -/
structure Mark.EndsMarkup (mark : Mark) : Prop where
  needsEnd : mark.NeedsEnd
  joins : mark.Joins
  settles : mark.Settles
  holdsEnd : ∀ text found, mark text = some found → '>' ∈ found.1

theorem commentEnd_endsMarkup : Mark.EndsMarkup commentEnd :=
  ⟨commentEnd_needsEnd, commentEnd_joins, commentEnd_settles, commentEnd_holdsNoQuote.holdsEnd⟩

theorem shortSectionEnd_endsMarkup : Mark.EndsMarkup shortSectionEnd :=
  ⟨shortSectionEnd_needsEnd, shortSectionEnd_joins, shortSectionEnd_settles,
    shortSectionEnd_holdsNoQuote.holdsEnd⟩

theorem longSectionEnd_endsMarkup : Mark.EndsMarkup longSectionEnd :=
  ⟨longSectionEnd_needsEnd, longSectionEnd_joins, longSectionEnd_settles,
    longSectionEnd_holdsNoQuote.holdsEnd⟩

/-- A run up to the first place where a settled test fails is the same whatever follows a `>` behind
that place. -/
theorem splitRun_settled {test : List Char → Bool}
    (hSettles : ∀ front, '>' ∈ front → ∀ rest, test (front ++ rest) = test front)
    {body found rest : List Char} (hEnd : '>' ∈ found)
    (hRun : splitRun (fun c rest => test (c :: rest)) (body ++ (found ++ rest)) =
      (body, found ++ rest)) (other : List Char) :
    splitRun (fun c rest => test (c :: rest)) (body ++ (found ++ other)) =
      (body, found ++ other) := by
  induction body with
  | nil =>
      cases found with
      | nil => simp at hEnd
      | cons c found =>
          have hSame := hSettles (c :: found) hEnd
          have hRest := hSame rest
          have hOther := hSame other
          simp only [List.nil_append, List.cons_append] at hRest hOther hRun ⊢
          rw [splitRun_cons, hRest] at hRun
          rw [splitRun_cons, hOther]
          split at hRun
          · simp at hRun
          · rename_i hTest
            rw [if_neg hTest]
  | cons c body ih =>
      have hFront : '>' ∈ c :: (body ++ found) := by simp [hEnd]
      have hSame := hSettles (c :: (body ++ found)) hFront
      have hRest := hSame rest
      have hOther := hSame other
      simp only [List.cons_append, List.append_assoc] at hRest hOther hRun ⊢
      rw [splitRun_cons, hRest] at hRun
      rw [splitRun_cons, hOther]
      split at hRun
      · rename_i hTest
        obtain ⟨hBody, hBehind⟩ := Prod.mk.inj hRun
        have hTail := ih (Prod.ext (List.cons.inj hBody).2 hBehind)
        rw [if_pos hTest, hTail]
      · simp at hRun

/-- The search for a mark ends at the same place whatever follows the mark. -/
theorem splitAtMark?_append {mark : Mark} (hMark : mark.EndsMarkup) {body found rest : List Char}
    (hSplit : splitAtMark? mark (body ++ (found ++ rest)) = some (body, found))
    (other : List Char) :
    splitAtMark? mark (body ++ (found ++ other)) = some (body, found) := by
  obtain ⟨left, hText, hFound, hRun⟩ := exists_of_splitAtMark? hMark.joins hSplit
  obtain rfl := List.append_cancel_left (List.append_cancel_left hText)
  have hEnd : '>' ∈ found := hMark.holdsEnd _ _ hFound
  have hSettles (front : List Char) (hMem : '>' ∈ front) (rest : List Char) :
      (mark (front ++ rest)).isNone = (mark front).isNone := by
    rw [hMark.settles front hMem, Option.isNone_map]
  rw [splitAtMark?_eq hMark.needsEnd,
    @splitRun_settled (fun text => (mark text).isNone) hSettles _ _ _ hEnd hRun other]
  rw [hMark.settles found hEnd] at hFound
  obtain ⟨left, hLeft, hPair⟩ := Option.map_eq_some_iff.1 hFound
  rw [hMark.settles found hEnd, hLeft]
  simp [(Prod.mk.inj hPair).1]

/-- A text is split at the same place whatever follows the mark. -/
theorem splitAtFirst?_append {mark : Char} {text before behind : List Char}
    (hSplit : splitAtFirst? mark text = some (before, behind)) (other : List Char) :
    splitAtFirst? mark (before ++ mark :: other) = some (before, other) :=
  splitAtFirst?_eq_some_iff.2 ⟨rfl, (splitAtFirst?_eq_some_iff.1 hSplit).2⟩

end AccessibleMarkup.Markup
