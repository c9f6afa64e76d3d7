import AccessibleMarkup.Audit.LanguageCode
import Mathlib.Data.List.Basic

/-! The grammar of language codes: a primary subtag of two or three letters, and further subtags of
two to eight letters or digits with a hyphen before each. All codes of this grammar are accepted. A
text that is accepted beyond them ends with a line feed or holds a letter outside ASCII. -/
namespace AccessibleMarkup

open AccessibleMarkup.Markup

/-- A subtag of some kind of characters, with bounds for its length. -/
structure IsSubtag (least most : Nat) (kind : Char → Bool) (subtag : List Char) : Prop where
  least_le : least ≤ subtag.length
  le_most : subtag.length ≤ most
  kinds : ∀ c ∈ subtag, kind c = true

/-- The subtags in one text, with a hyphen before each but the first. -/
def joinSubtags (primary : List Char) (further : List (List Char)) : List Char :=
  primary ++ further.flatMap fun subtag => '-' :: subtag

/-- A text of the grammar, over some kind of letters. Digits are ASCII digits. -/
def IsCodeOver (letter : Char → Bool) (text : List Char) : Prop :=
  ∃ primary further, text = joinSubtags primary further ∧ IsSubtag 2 3 letter primary ∧
    ∀ subtag ∈ further, IsSubtag 2 8 (fun c => letter c || c.isDigit) subtag

theorem joinSubtags_cons (primary first : List Char) (more : List (List Char)) :
    joinSubtags primary (first :: more) = primary ++ '-' :: joinSubtags first more := by
  simp [joinSubtags]

section
variable {front rest : List Char}

/-- Characters without a hyphen go on with the current subtag. -/
theorem subtagsOnto_of_not_mem (hFront : '-' ∉ front) (done : List (List Char))
    (subtag : List Char) :
    subtagsOnto done subtag (front ++ rest) = subtagsOnto done (front.reverse ++ subtag) rest := by
  induction front generalizing subtag with
  | nil => rfl
  | cons c front ih =>
      have hC : c ≠ '-' := fun hSame => hFront (hSame ▸ List.mem_cons_self ..)
      rw [List.cons_append, subtagsOnto, if_neg hC,
        ih fun hMem => hFront (List.mem_cons_of_mem _ hMem)]
      simp

/-- Subtags that were split off before stand in front of those that are still to be split off. -/
theorem subtagsOnto_eq (done : List (List Char)) (subtag text : List Char) :
    subtagsOnto done subtag text = done.reverse ++ subtagsOnto [] subtag text := by
  induction text generalizing done subtag with
  | nil => simp [subtagsOnto]
  | cons c text ih =>
      simp only [subtagsOnto]
      split
      · rw [ih (subtag.reverse :: done), ih [subtag.reverse]]
        simp
      · exact ih ..

theorem subtags_of_not_mem (hFront : '-' ∉ front) : subtags front = [front] := by
  have hAll := @subtagsOnto_of_not_mem front [] hFront [] []
  rw [List.append_nil, List.append_nil] at hAll
  rw [subtags, hAll]
  simp [subtagsOnto]

/-- The first hyphen ends the first subtag. -/
theorem subtags_append_hyphen (hFront : '-' ∉ front) :
    subtags (front ++ '-' :: rest) = front :: subtags rest := by
  rw [subtags, subtagsOnto_of_not_mem hFront, subtagsOnto, if_pos rfl, subtagsOnto_eq]
  simp [subtags]

end

/-- Subtags without hyphens are found again in the text that they make. -/
theorem subtags_joinSubtags {primary : List Char} {further : List (List Char)}
    (hPrimary : '-' ∉ primary) (hFurther : ∀ subtag ∈ further, '-' ∉ subtag) :
    subtags (joinSubtags primary further) = primary :: further := by
  induction further generalizing primary with
  | nil => simpa [joinSubtags] using subtags_of_not_mem hPrimary
  | cons first more ih =>
      obtain ⟨hFirst, hMore⟩ := List.forall_mem_cons.1 hFurther
      rw [joinSubtags_cons, subtags_append_hyphen hPrimary, ih hFirst hMore]

/-- Every text is made of the subtags that are found in it. -/
theorem exists_joinSubtags (text : List Char) :
    ∃ primary further, text = joinSubtags primary further ∧ subtags text = primary :: further := by
  induction hLength : text.length using Nat.strongRecOn generalizing text with
  | ind length ih =>
      by_cases hMem : '-' ∈ text
      · obtain ⟨front, rest, rfl, hFront⟩ := List.eq_append_cons_of_mem hMem
        obtain ⟨primary, further, hRest, hSubtags⟩ :=
          ih rest.length (by simp [← hLength]; omega) rest rfl
        refine ⟨front, primary :: further, ?_, ?_⟩
        · simp [joinSubtags, hRest]
        · rw [subtags_append_hyphen hFront, hSubtags]
      · exact ⟨text, [], by simp [joinSubtags], subtags_of_not_mem hMem⟩

/-- The first subtag has two or three letters. -/
theorem isPrimarySubtag_iff {subtag : List Char} :
    isPrimarySubtag subtag = true ↔ IsSubtag 2 3 isCodeLetter subtag := by
  simp only [isPrimarySubtag, Bool.and_eq_true, Bool.or_eq_true, decide_eq_true_eq,
    List.all_eq_true]
  constructor
  · rintro ⟨hLength, hLetters⟩
    exact ⟨by omega, by omega, hLetters⟩
  · rintro ⟨hLeast, hMost, hLetters⟩
    exact ⟨by omega, hLetters⟩

/-- A further subtag has two to eight letters and digits. -/
theorem isFurtherSubtag_iff {subtag : List Char} :
    isFurtherSubtag subtag = true ↔
      IsSubtag 2 8 (fun c => isCodeLetter c || c.isDigit) subtag := by
  simp only [isFurtherSubtag, Bool.and_eq_true, decide_eq_true_eq, List.all_eq_true]
  exact ⟨fun hSubtag => ⟨hSubtag.1.1, hSubtag.1.2, hSubtag.2⟩,
    fun hSubtag => ⟨⟨hSubtag.least_le, hSubtag.le_most⟩, hSubtag.kinds⟩⟩

/-- No subtag is empty. -/
theorem IsSubtag.ne_nil {least most : Nat} {kind : Char → Bool} {subtag : List Char}
    (hSubtag : IsSubtag least most kind subtag) (hLeast : 0 < least) : subtag ≠ [] :=
  List.ne_nil_of_length_pos (Nat.lt_of_lt_of_le hLeast hSubtag.least_le)

/-- No subtag holds a hyphen. -/
theorem IsSubtag.hyphen_not_mem {least most : Nat} {kind : Char → Bool} {subtag : List Char}
    (hSubtag : IsSubtag least most kind subtag) (hKind : kind '-' = false) : '-' ∉ subtag := by
  intro hMem
  rw [hSubtag.kinds '-' hMem] at hKind
  cases hKind

/-- A line feed at the end aside, the texts of the grammar have the subtags of a code. -/
theorem hasCodeSubtags_iff {text : List Char} :
    hasCodeSubtags text = true ↔ IsCodeOver isCodeLetter (withoutLineFeed text) := by
  constructor
  · intro hCode
    obtain ⟨primary, further, hText, hSubtags⟩ := exists_joinSubtags (withoutLineFeed text)
    simp only [hasCodeSubtags, hSubtags, Bool.and_eq_true, List.all_eq_true] at hCode
    exact ⟨primary, further, hText, isPrimarySubtag_iff.1 hCode.1,
      fun subtag hMem => isFurtherSubtag_iff.1 (hCode.2 subtag hMem)⟩
  · rintro ⟨primary, further, hText, hPrimary, hFurther⟩
    have hSubtags : subtags (withoutLineFeed text) = primary :: further := by
      rw [hText]
      exact subtags_joinSubtags (hPrimary.hyphen_not_mem (by decide))
        fun subtag hMem => (hFurther subtag hMem).hyphen_not_mem (by decide)
    simp only [hasCodeSubtags, hSubtags, Bool.and_eq_true, List.all_eq_true]
    exact ⟨isPrimarySubtag_iff.2 hPrimary,
      fun subtag hMem => isFurtherSubtag_iff.2 (hFurther subtag hMem)⟩

section
variable {letter other : Char → Bool} {text : List Char}

/-- A code over some letters is one over other letters if its letters are among these. -/
theorem IsCodeOver.of_letters (hCode : IsCodeOver letter text)
    (hLetters : ∀ c ∈ text, letter c = true → other c = true) : IsCodeOver other text := by
  obtain ⟨primary, further, rfl, hPrimary, hFurther⟩ := hCode
  refine ⟨primary, further, rfl, ⟨hPrimary.least_le, hPrimary.le_most, fun c hMem => ?_⟩,
    fun subtag hSubtag => ⟨(hFurther subtag hSubtag).least_le, (hFurther subtag hSubtag).le_most,
      fun c hMem => ?_⟩⟩
  · exact hLetters c (List.mem_append_left _ hMem) (hPrimary.kinds c hMem)
  · have hText : c ∈ joinSubtags primary further :=
      List.mem_append_right _ (List.mem_flatMap.2 ⟨subtag, hSubtag, List.mem_cons_of_mem _ hMem⟩)
    have hC := (hFurther subtag hSubtag).kinds c hMem
    simp only [Bool.or_eq_true] at hC ⊢
    exact hC.imp_left (hLetters c hText)

/-- A code holds letters, digits and hyphens. -/
theorem IsCodeOver.kinds (hCode : IsCodeOver letter text) {c : Char} (hMem : c ∈ text) :
    letter c = true ∨ c.isDigit = true ∨ c = '-' := by
  obtain ⟨primary, further, rfl, hPrimary, hFurther⟩ := hCode
  rcases List.mem_append.1 hMem with hMem | hMem
  · exact .inl (hPrimary.kinds c hMem)
  · obtain ⟨subtag, hSubtag, hMem⟩ := List.mem_flatMap.1 hMem
    rcases List.mem_cons.1 hMem with rfl | hMem
    · exact .inr (.inr rfl)
    · have hC := (hFurther subtag hSubtag).kinds c hMem
      simp only [Bool.or_eq_true] at hC
      exact hC.imp_right .inl

/-- The last character of joined subtags is that of a subtag, if none of them is empty. -/
theorem getLast?_joinSubtags {kind : Char → Bool} {primary : List Char} {further : List (List Char)}
    (hPrimary : primary ≠ [] ∧ ∀ c ∈ primary, kind c = true)
    (hFurther : ∀ subtag ∈ further, subtag ≠ [] ∧ ∀ c ∈ subtag, kind c = true) {c : Char}
    (hLast : (joinSubtags primary further).getLast? = some c) : kind c = true := by
  induction further generalizing primary with
  | nil =>
      have hMem := List.mem_of_getLast? hLast
      exact hPrimary.2 c (by simpa [joinSubtags] using hMem)
  | cons first more ih =>
      obtain ⟨hFirst, hMore⟩ := List.forall_mem_cons.1 hFurther
      have hNonempty : joinSubtags first more ≠ [] := by simp [joinSubtags, hFirst.1]
      refine ih hFirst hMore (Eq.trans ?_ hLast)
      rw [joinSubtags_cons, List.getLast?_append_of_ne_nil _ (by simp),
        List.getLast?_cons_of_ne_nil hNonempty]

/-- A code ends with a letter or a digit. -/
theorem IsCodeOver.getLast? (hCode : IsCodeOver letter text) {c : Char}
    (hLast : text.getLast? = some c) : letter c = true ∨ c.isDigit = true := by
  obtain ⟨primary, further, rfl, hPrimary, hFurther⟩ := hCode
  have hKinds : ∀ d ∈ primary, (letter d || d.isDigit) = true := fun d hMem => by
    simp [hPrimary.kinds d hMem]
  simpa using getLast?_joinSubtags ⟨hPrimary.ne_nil (by decide), hKinds⟩
    (fun subtag hMem => ⟨(hFurther subtag hMem).ne_nil (by decide), (hFurther subtag hMem).kinds⟩)
    hLast

end

theorem isCodeLetter_of_isLetter {c : Char} (hC : isLetter c = true) : isCodeLetter c = true := by
  simp [isCodeLetter, hC]

/-- In ASCII, the letters of codes are the letters. -/
theorem isLetter_of_isCodeLetter {c : Char} (hC : isCodeLetter c = true) (hAscii : c.toNat < 0x80) :
    isLetter c = true := by
  simp only [isCodeLetter, Bool.or_eq_true, decide_eq_true_eq, or_assoc] at hC
  rcases hC with hLetter | rfl | rfl | rfl | rfl
  · exact hLetter
  all_goals exact absurd hAscii (by decide)

theorem isAscii_of_isDigit {c : Char} (hC : c.isDigit = true) : c.toNat < 0x80 := by
  simp only [Char.isDigit, Bool.and_eq_true, decide_eq_true_eq] at hC
  exact Nat.lt_of_le_of_lt (UInt32.le_iff_toNat_le.1 hC.2) (by decide)

section
variable {text : List Char}

/-- A code does not end with a line feed. -/
theorem IsCodeOver.withoutLineFeed_eq (hCode : IsCodeOver isCodeLetter text) :
    withoutLineFeed text = text :=
  if_neg fun hLast => absurd (hCode.getLast? hLast) (by decide)

/-- A line feed may stand behind a code. -/
theorem hasCodeSubtags_iff_exists :
    hasCodeSubtags text = true ↔ IsCodeOver isCodeLetter text ∨
      ∃ code, text = code ++ ['\n'] ∧ IsCodeOver isCodeLetter code := by
  rw [hasCodeSubtags_iff]
  constructor
  · intro hCode
    by_cases hLast : text.getLast? = some '\n'
    · refine .inr ⟨text.dropLast, (List.dropLast_append_getLast? _ hLast).symm, ?_⟩
      rwa [withoutLineFeed, if_pos hLast] at hCode
    · rw [withoutLineFeed, if_neg hLast] at hCode
      exact .inl hCode
  · rintro (hCode | ⟨code, rfl, hCode⟩)
    · rwa [hCode.withoutLineFeed_eq]
    · rwa [withoutLineFeed, List.getLast?_concat, if_pos rfl, List.dropLast_concat]

/-- What has the subtags of a code does not end with a hyphen. -/
theorem getLast?_of_hasCodeSubtags (hSubtags : hasCodeSubtags text = true) :
    text.getLast? ≠ some '-' := by
  intro hLast
  rcases hasCodeSubtags_iff_exists.1 hSubtags with hCode | ⟨code, rfl, -⟩
  · exact absurd (hCode.getLast? hLast) (by decide)
  · exact absurd (List.getLast?_concat.symm.trans hLast) (by decide)

/-- The test for a hyphen at the end never decides. -/
theorem isLanguageCode_eq (text : List Char) : isLanguageCode text = hasCodeSubtags text := by
  cases hSubtags : hasCodeSubtags text with
  | false => simp [isLanguageCode, hSubtags]
  | true => simp [isLanguageCode, hSubtags, getLast?_of_hasCodeSubtags hSubtags]

/-- Over ASCII letters there is no other character than these in a code. -/
theorem IsCodeOver.isAscii (hCode : IsCodeOver isLetter text) : ∀ c ∈ text, c.toNat < 0x80 := by
  intro c hMem
  rcases hCode.kinds hMem with hC | hC | rfl
  · exact isAscii_of_isLetter hC
  · exact isAscii_of_isDigit hC
  · decide

end

/-- The texts that are accepted are the codes over the letters and those characters beyond ASCII
that differ from a letter in case alone, each of them also with a line feed at its end. The codes
over ASCII letters are those of them that are in ASCII and do not end with a line feed. No accepted
text ends with a hyphen, since none that has the subtags of a code does: the test for one never
decides. -/
theorem accepted_language_codes (text : List Char) :
    (isLanguageCode text = true ↔ IsCodeOver isCodeLetter text ∨
      ∃ code, text = code ++ ['\n'] ∧ IsCodeOver isCodeLetter code) ∧
    (IsCodeOver isLetter text ↔ isLanguageCode text = true ∧ text.getLast? ≠ some '\n' ∧
      ∀ c ∈ text, c.toNat < 0x80) ∧
    (isLanguageCode text = true → text.getLast? ≠ some '-') ∧
    isLanguageCode text = hasCodeSubtags text := by
  have hAccepts := @hasCodeSubtags_iff_exists text
  rw [isLanguageCode_eq]
  refine ⟨hAccepts, ⟨fun hCode => ⟨?_, ?_, hCode.isAscii⟩, ?_⟩, getLast?_of_hasCodeSubtags, rfl⟩
  · exact hAccepts.2 (.inl (hCode.of_letters fun c _ => isCodeLetter_of_isLetter))
  · exact fun hLast => absurd (hCode.getLast? hLast) (by decide)
  · rintro ⟨hAccepted, hLast, hAscii⟩
    rcases hAccepts.1 hAccepted with hCode | ⟨code, rfl, -⟩
    · exact hCode.of_letters fun c hMem hC => isLetter_of_isCodeLetter hC (hAscii c hMem)
    · exact absurd List.getLast?_concat hLast

/-- A language with a year behind it is a code that is accepted. -/
theorem accepted_language_code_with_year :
    isLanguageCode ['d', 'e', '-', '1', '9'] = true ∧
      IsCodeOver isLetter ['d', 'e', '-', '1', '9'] ∧
      ['d', 'e', '-', '1', '9'].getLast? ≠ some '-' := by
  have hAccepted : isLanguageCode ['d', 'e', '-', '1', '9'] = true := by decide
  obtain ⟨-, hOverLetters, hLast, -⟩ := accepted_language_codes ['d', 'e', '-', '1', '9']
  exact ⟨hAccepted, hOverLetters.2 ⟨hAccepted, by decide, by simp⟩, hLast hAccepted⟩

/-- A line feed behind a code is accepted with it, and the long s counts as the letter that it is
a form of. -/
theorem accepts_beyond_language_codes :
    (isLanguageCode ['e', 'n', '\n'] = true ∧ ¬IsCodeOver isLetter ['e', 'n', '\n']) ∧
    (isLanguageCode ['\u017F', 'v'] = true ∧ ¬IsCodeOver isLetter ['\u017F', 'v']) := by
  refine ⟨⟨by decide, fun hCode => ?_⟩, by decide, fun hCode => ?_⟩
  · exact absurd (hCode.getLast? rfl) (by decide)
  · exact absurd (hCode.isAscii '\u017F' (List.mem_cons_self ..)) (by decide)

end AccessibleMarkup
