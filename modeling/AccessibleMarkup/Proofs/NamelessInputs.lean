import AccessibleMarkup.Proofs.Additions

/-! Inputs without a name. The search for inputs takes a dotted capital I and a dotless small one
for the first letter of their name, while the name of a tag begins with an ASCII letter. So what is
found with such a letter has no name that a label could stand behind, and no attribute either. The
rules that look for elements neither bring such inputs about nor take them away. -/
namespace AccessibleMarkup

open AccessibleMarkup.Markup
open AccessibleMarkup.Text

/-- The text behind its first character begins with an I that is no ASCII letter. -/
def beginsForeign : List Char → Bool
  | _ :: c :: _ => c = '\u0130' || c = '\u0131'
  | _ => false

/-- Something that looks like the tag of an input has no name. -/
def NamelessInput (text : List Char) : Prop :=
  ∃ placed ∈ inputTags text, beginsForeign placed.source = true

/-- Nothing but an ASCII letter has the small i for its ASCII lower case. -/
theorem Text.isLetter_of_toLower {c : Char} (hLower : c.toLower = 'i') : isLetter c = true := by
  by_cases hC : c.toNat < 0x80
  · revert hLower
    apply forall_ascii ?_ hC
    decide
  · rw [toLower_of_not_ascii hC] at hLower
    exact absurd (by rw [hLower]; decide) hC

/-- A tag has no name exactly where no letter follows its `<`. -/
theorem Markup.tagStart_cons_eq_nil_iff {c : Char} {rest : List Char} :
    tagStart ('<' :: c :: rest) = [] ↔ isLetter c = false := by
  rw [tagStart, readTagName?]
  cases isLetter c <;> simp

/-- What looks like the tag of an input begins with the letter that its name begins with, in either
case, or with an I that is none. -/
theorem tagStart_eq_nil_iff {rest source : List Char} (hTag : inputTagAfter? rest = some source) :
    tagStart source = [] ↔ beginsForeign source = true := by
  obtain ⟨-, read, c, later, hText, -, -, -, hWord⟩ :=
    inputTagAfter?_isSome_iff.1 (Option.isSome_iff_exists.2 ⟨_, hTag⟩)
  obtain ⟨body, behind, rfl, rfl, -⟩ := inputTagAfter?_eq_some hTag
  have hFound := hWord []
  cases read with
  | nil => simp [afterWord?] at hFound
  | cons first read =>
      have hFirst := firstLetter_of_inputWord hFound
      cases body with
      | nil =>
          obtain rfl := (List.cons.inj hText).1
          simp at hFirst
      | cons d body =>
          obtain rfl := (List.cons.inj hText).1
          rw [List.cons_append, List.cons_append, tagStart_cons_eq_nil_iff, beginsForeign]
          rcases hFirst with hLower | rfl | rfl
          · have hLetter := isLetter_of_toLower hLower
            simp only [hLetter, Bool.true_eq_false, false_iff, Bool.or_eq_true, decide_eq_true_eq,
              not_or]
            constructor <;> rintro rfl <;> exact absurd hLetter (by decide)
          · decide
          · decide

/-- What looks like the tag of an input has no name exactly where its first letter is not in ASCII.
-/
theorem tagStart_eq_nil_of_mem {text : List Char} {placed : PlacedTag}
    (hMem : placed ∈ inputTags text) :
    tagStart placed.source = [] ↔ beginsForeign placed.source = true := by
  obtain ⟨-, rest, -, -, hTag⟩ := exists_of_mem_inputTags hMem
  exact tagStart_eq_nil_iff hTag

/-- What begins no tag carries no attribute, since an attribute does not follow its `<`. -/
theorem hasAttribute_eq_false {source body : List Char} (hSource : source = '<' :: body ++ ['>'])
    (hStart : tagStart source = []) (name : List Char) : hasAttribute source name = false := by
  have hEnd : withoutEnd source = '<' :: body := by
    rw [hSource, withoutEnd, List.getLast?_concat, if_pos rfl, List.dropLast_concat]
  have hGap : splitGap ('<' :: body) = ([], '<' :: body) := by
    rw [splitGap, splitRun_cons]
    rfl
  have hNone : readAttribute? '<' ('<' :: body) = none := readAttribute?_eq_none_iff.2 (.inl rfl)
  simp [hasAttribute, attributesOf, hStart, hEnd, hGap, readAttributes_of_none hNone, placeOnto]

section
variable {text : List Char}

/-- The tags that are found do not depend on what was counted before. -/
theorem map_source_inputTagsOnto (offset : Nat) :
    (inputTagsOnto [] offset text).map (·.source) = (inputTags text).map (·.source) := by
  obtain ⟨moved, hMoved, hSame⟩ := (findsInputs_inputTagsOnto 0 text).elsewhere offset
  rw [hMoved.eq, hSame]
  rfl

theorem namelessInput_iff :
    NamelessInput text ↔
      ∃ source ∈ (inputTags text).map (·.source), beginsForeign source = true := by
  simp [NamelessInput]

/-- The search goes on behind a character where nothing begins. -/
theorem namelessInput_cons {c : Char} (hNone : c = '<' → inputTagAfter? text = none) :
    NamelessInput (c :: text) ↔ NamelessInput text := by
  have hStep : inputTags (c :: text) = inputTagsOnto [] 1 text :=
    FindsInputs.eq (.pass hNone (findsInputs_inputTagsOnto 1 text))
  rw [namelessInput_iff, namelessInput_iff, hStep, map_source_inputTagsOnto]

/-- Text without a `<` begins no tag. -/
theorem namelessInput_append {front : List Char} (hOpen : '<' ∉ front) :
    NamelessInput (front ++ text) ↔ NamelessInput text := by
  induction front with
  | nil => rfl
  | cons c front ih =>
      rw [List.cons_append, namelessInput_cons fun hC => absurd (hC ▸ List.mem_cons_self ..) hOpen]
      exact ih fun hMem => hOpen (List.mem_cons_of_mem _ hMem)

/-- A tag that is found is nameless, or a nameless one comes behind it. -/
theorem namelessInput_tag {body behind : List Char}
    (hTag : inputTagAfter? (body ++ '>' :: behind) = some ('<' :: body ++ ['>'])) :
    NamelessInput ('<' :: (body ++ '>' :: behind)) ↔
      beginsForeign ('<' :: body ++ ['>']) = true ∨ NamelessInput behind := by
  have hStep : inputTags ('<' :: (body ++ '>' :: behind)) = ⟨0, '<' :: body ++ ['>']⟩ ::
      inputTagsOnto [] (0 + ('<' :: body ++ ['>']).length) behind :=
    FindsInputs.eq (.tag hTag (findsInputs_inputTagsOnto _ behind))
  rw [namelessInput_iff, namelessInput_iff, hStep, List.map_cons, map_source_inputTagsOnto,
    List.exists_mem_cons_iff]

end

/-- The word that an input is found by could go on in the name of a tag. -/
theorem continues_of_inputWord {read : List Char}
    (hWord : ∀ other, afterWord? "input".toList (read ++ other) = some other) :
    ∀ c ∈ read, continuesTagName c = true := by
  intro c hMem
  by_contra hEnds
  refine not_mem_of_inputWord hWord ?_ hMem
  simp only [continuesTagName, Bool.not_eq_true, Bool.not_eq_false', Bool.or_eq_true,
    decide_eq_true_eq] at hEnds
  rcases hEnds with ((((((rfl | rfl) | rfl) | rfl) | rfl) | rfl) | rfl) | rfl <;> decide

/-- What stands behind the last mark of a list. -/
theorem eq_of_append_cons {α : Type} {mark : α} {front others behind rest : List α}
    (hBehind : mark ∉ behind) (hRest : mark ∉ rest)
    (hJoin : front ++ mark :: behind = others ++ mark :: rest) : behind = rest := by
  rcases List.append_eq_append_iff.1 hJoin with ⟨left, -, hLeft⟩ | ⟨left, -, hLeft⟩
  · cases left with
    | nil => exact (List.cons.inj hLeft).2
    | cons d left => exact absurd (by rw [(List.cons.inj hLeft).2]; simp) hBehind
  · cases left with
    | nil => exact (List.cons.inj hLeft).2.symm
    | cons d left => exact absurd (by rw [(List.cons.inj hLeft).2]; simp) hRest

section
variable {rules shown : List Rule}
  (hRules : ∀ rule ∈ rules, rule ∈ Rule.all ∧ rule.finder = .elements)
include hRules

/-- No label stands behind a part of the word that an input is found by. If the word goes on, the
label is not behind a name, and if it does not, the name is none that a rule looks for. -/
theorem LabelsStand.not_behind_inputWord (hShown : shown = [] ∨ shown = rules)
    {front behind : List Piece} {done todo later : List Char} {rule : Rule}
    (hStand : LabelsStand rules (front ++ ('<' :: done).map .char ++ .label rule :: behind))
    (hWord : ∀ other, afterWord? "input".toList (done ++ todo ++ other) = some other) :
    withLabels shown (.label rule :: behind) ≠ todo ++ later := by
  intro hText
  obtain ⟨hMem, ⟨before, name, hJoin, hRead⟩, hName⟩ := hStand _ rule behind rfl
  obtain ⟨-, hIsName, hStops⟩ := readTagName?_eq_some_iff.1 hRead
  have hTag := hName (hRules rule hMem).2 before name hJoin hIsName
  obtain rfl : done = name := by
    have hOpen : '<' ∉ done := fun hOpen =>
      not_mem_of_inputWord hWord (by decide) (List.mem_append_left _ hOpen)
    have hOpenName := Rule.open_not_mem_name (hRules rule hMem).1 hTag
    have hChars := eq_of_append_cons (by simpa using hOpen) (by simpa using hOpenName) hJoin
    exact List.map_injective_iff.2 (fun _ _ => Piece.char.inj) hChars
  cases todo with
  | nil =>
      have hInputs := Rule.eq_inputs_of_afterWord? (hRules rule hMem).1 hTag
        ((List.append_assoc ..) ▸ hWord [])
      have hFinder := (hRules rule hMem).2
      rw [hInputs] at hFinder
      cases hFinder
  | cons c todo =>
      rcases hShown with rfl | rfl
      · rw [withLabels_label_cons_of_not_mem List.not_mem_nil] at hText
        rw [hText] at hStops
        have hStop : continuesTagName c = false := hStops
        rw [continues_of_inputWord hWord c (by simp)] at hStop
        cases hStop
      · rw [withLabels_label_cons hMem, Rule.label_eq] at hText
        obtain rfl := (List.cons.inj hText).1
        have hBlank : ' ' ∉ done ++ ' ' :: todo := not_mem_of_inputWord hWord (by decide)
        exact hBlank (by simp)

/-- The word that an input is found by, and what ends it, are made of characters, whether labels are
written or not. -/
theorem LabelsStand.map_char_of_inputWord (hShown : shown = [] ∨ shown = rules)
    {front rest : List Piece} {done todo later : List Char} {c : Char}
    (hStand : LabelsStand rules (front ++ ('<' :: done).map .char ++ rest))
    (hWord : ∀ other, afterWord? "input".toList (done ++ todo ++ other) = some other)
    (hText : withLabels shown rest = todo ++ c :: later) :
    ∃ behind, rest = (todo ++ [c]).map .char ++ behind := by
  induction todo generalizing done rest with
  | nil =>
      cases rest with
      | nil => simp at hText
      | cons piece rest =>
          cases piece with
          | label rule => exact absurd hText (hStand.not_behind_inputWord hRules hShown hWord)
          | char d =>
              obtain rfl := (List.cons.inj hText).1
              exact ⟨rest, rfl⟩
  | cons d todo ih =>
      cases rest with
      | nil => simp at hText
      | cons piece rest =>
          cases piece with
          | label rule => exact absurd hText (hStand.not_behind_inputWord hRules hShown hWord)
          | char e =>
              obtain ⟨rfl, hLater⟩ := List.cons.inj hText
              have hNext : LabelsStand rules (front ++ ('<' :: (done ++ [e])).map .char ++ rest) :=
                by simpa using hStand
              obtain ⟨behind, rfl⟩ := ih hNext (by simpa using hWord) hLater
              exact ⟨behind, rfl⟩

/-- What looks like the tag of an input looks like one with labels and without them, and begins with
the same character. -/
theorem LabelsStand.inputTag (hShown : shown = [] ∨ shown = rules) {front rest : List Piece}
    (hStand : LabelsStand rules (front ++ .char '<' :: rest))
    (hTag : (inputTagAfter? (withLabels shown rest)).isSome = true) :
    ∃ first inner behind, rest = .char first :: inner ++ .char '>' :: behind ∧
      ∀ others, others = [] ∨ others = rules → inputTagAfter? (withLabels others rest) =
        some ('<' :: (first :: withLabels others inner) ++ ['>']) := by
  have hLabel {others : List Rule} (hOthers : others = [] ∨ others = rules) :
      ∀ rule ∈ others, '>' ∉ rule.label := by
    rcases hOthers with rfl | rfl
    · simp
    · exact fun rule hMem => Rule.end_not_mem_label (hRules rule hMem).1
  obtain ⟨hEnd, read, c, later, hText, hOpen, hBlank, hBehind, hWord⟩ :=
    inputTagAfter?_isSome_iff.1 hTag
  have hHere : LabelsStand rules (front ++ ['<'].map .char ++ rest) := by simpa using hStand
  obtain ⟨left, hRest⟩ := hHere.map_char_of_inputWord hRules hShown hWord hText
  obtain ⟨body, behind, hSplit, hBody⟩ :=
    List.eq_append_cons_of_mem ((mem_withLabels (hLabel hShown)).1 hEnd)
  obtain ⟨first, read, rfl⟩ : ∃ first more, read = first :: more := by
    refine List.exists_cons_of_ne_nil ?_
    rintro rfl
    simpa [afterWord?] using hWord []
  have hFirst : first ≠ '>' := by
    rintro rfl
    exact not_mem_of_inputWord hWord (by decide) (List.mem_cons_self ..)
  obtain ⟨inner, rfl⟩ : ∃ inner, body = Piece.char first :: inner := by
    have hHead := hRest.symm.trans hSplit
    cases body with
    | nil => exact absurd (Piece.char.inj (List.cons.inj hHead).1) hFirst
    | cons piece body => exact ⟨body, by rw [(List.cons.inj hHead).1]⟩
  refine ⟨first, inner, behind, hSplit, fun others hOthers => ?_⟩
  have hFound : (inputTagAfter? (withLabels others rest)).isSome = true :=
    inputTagAfter?_isSome_iff.2
      ⟨(mem_withLabels (hLabel hOthers)).2 (by simp [hSplit]), first :: read, c,
        withLabels others left, by simp [hRest], hOpen, hBlank, hBehind, hWord⟩
  obtain ⟨source, hSource⟩ := Option.isSome_iff_exists.1 hFound
  obtain ⟨whole, more, hWhole, rfl, hInner⟩ := inputTagAfter?_eq_some hSource
  rw [hSource]
  have hWritten : withLabels others rest =
      (first :: withLabels others inner) ++ '>' :: withLabels others behind := by
    simp [hSplit]
  have hClosed : '>' ∉ first :: withLabels others inner := by
    rw [← withLabels_char_cons, mem_withLabels (hLabel hOthers)]
    exact hBody
  have hFirstEnd := splitAtFirst?_eq_some_iff.2 ⟨hWhole, hInner⟩
  rw [splitAtFirst?_eq_some_iff.2 ⟨hWritten, hClosed⟩] at hFirstEnd
  rw [(Prod.mk.inj (Option.some.inj hFirstEnd)).1]

/-- Whether an input has no name does not hang on the labels in its tag. -/
theorem LabelsStand.namelessInput_open (hShown : shown = [] ∨ shown = rules)
    {front rest : List Piece} (hStand : LabelsStand rules (front ++ .char '<' :: rest))
    (hTag : (inputTagAfter? (withLabels shown rest)).isSome = true) :
    ∃ first inner behind, rest = .char first :: inner ++ .char '>' :: behind ∧
      ∀ others, others = [] ∨ others = rules →
        (NamelessInput (withLabels others (.char '<' :: rest)) ↔
          beginsForeign ['<', first] = true ∨ NamelessInput (withLabels others behind)) := by
  obtain ⟨first, inner, behind, rfl, hFound⟩ := hStand.inputTag hRules hShown hTag
  refine ⟨first, inner, behind, rfl, fun others hOthers => ?_⟩
  have hSource := hFound others hOthers
  have hText : withLabels others (.char first :: inner ++ .char '>' :: behind) =
      (first :: withLabels others inner) ++ '>' :: withLabels others behind := by
    simp
  rw [hText] at hSource
  rw [withLabels_char_cons, hText, namelessInput_tag hSource]
  rfl

/-- Labels neither bring about an input without a name nor take one away. -/
theorem LabelsStand.namelessInput_iff {front rest : List Piece}
    (hStand : LabelsStand rules (front ++ rest)) :
    NamelessInput (withLabels rules rest) ↔ NamelessInput (withLabels [] rest) := by
  induction hLength : rest.length using Nat.strongRecOn generalizing front rest with
  | ind length ih =>
      cases rest with
      | nil => rfl
      | cons piece rest =>
          have hNext : LabelsStand rules (front ++ [piece] ++ rest) := by simpa using hStand
          have hRest := ih rest.length (by simp [← hLength]) hNext rfl
          cases piece with
          | label rule =>
              have hMem : rule ∈ rules := hStand.mem (by simp)
              rw [withLabels_label_cons hMem, withLabels_label_cons_of_not_mem List.not_mem_nil,
                namelessInput_append (Rule.open_not_mem_label (hRules rule hMem).1), hRest]
          | char c =>
              by_cases hSome : c = '<' ∧ ∃ shown, (shown = [] ∨ shown = rules) ∧
                  (inputTagAfter? (withLabels shown rest)).isSome = true
              · obtain ⟨rfl, shown, hShown, hFound⟩ := hSome
                obtain ⟨first, inner, behind, rfl, hNameless⟩ :=
                  hStand.namelessInput_open hRules hShown hFound
                have hLater : LabelsStand rules
                    (front ++ .char '<' :: .char first :: inner ++ [.char '>'] ++ behind) := by
                  simpa using hStand
                have hBehind := ih behind.length (by simp [← hLength]; omega) hLater rfl
                rw [hNameless rules (.inr rfl), hNameless [] (.inl rfl), hBehind]
              · have hNone (others : List Rule) (hOthers : others = [] ∨ others = rules)
                    (hC : c = '<') : inputTagAfter? (withLabels others rest) = none := by
                  rw [← Option.not_isSome_iff_eq_none]
                  exact fun hFound => hSome ⟨hC, others, hOthers, hFound⟩
                rw [withLabels_char_cons, withLabels_char_cons,
                  namelessInput_cons (hNone rules (.inr rfl)),
                  namelessInput_cons (hNone [] (.inl rfl)), hRest]

/-- The rules that look for elements neither bring about an input without a name nor take one
away. -/
theorem namelessInput_of_addLabels (hSublist : rules.Sublist Rule.all) {text labelled : List Char}
    (hAdd : (addLabels rules text).outcome = .ok labelled) :
    NamelessInput labelled ↔ NamelessInput text := by
  obtain ⟨pieces, hStand, rfl, rfl, -⟩ := exists_pieces hSublist hAdd
  have hAll : LabelsStand rules ([] ++ pieces) := hStand
  exact hAll.namelessInput_iff hRules

end

end AccessibleMarkup
