import AccessibleMarkup.Proofs.LineEndsInTokens
import AccessibleMarkup.Proofs.Passes

/-! Attribute values with unified line ends. A carriage return may stand in the name of a character
reference, so the decoded value need not have its line ends unified. But whether a value is allowed
only hangs on whether it is empty or one of the two truth values, and no value with a line end is:
the line end is left in it, or a reference writes a character that stands in neither of the two. -/
namespace AccessibleMarkup.Markup

open AccessibleMarkup.Text

/-- A character that stands in neither of the truth values. -/
def isOutsideTruth (c : Char) : Bool :=
  !("true".toList ++ "false".toList).contains c

theorem isOutsideTruth_iff {c : Char} :
    isOutsideTruth c = true ↔ c ∉ "true".toList ++ "false".toList := by
  rw [isOutsideTruth, Bool.not_eq_true', Bool.eq_false_iff, ne_eq, List.contains_iff_mem]

theorem isOutsideTruth_ofNat {code : Nat} (hCode : code ≤ 0x60 ∨ code = 0x6A ∨ 0x75 < code) :
    isOutsideTruth (Char.ofNat code) = true := by
  have hLetters : ("true".toList ++ "false".toList).all fun c =>
      0x60 < c.toNat ∧ c.toNat ≠ 0x6A ∧ c.toNat ≤ 0x75 := by decide +kernel
  rw [isOutsideTruth_iff]
  intro hMem
  have hLetter := of_decide_eq_true (List.all_eq_true.1 hLetters _ hMem)
  by_cases hValid : code.isValidChar
  · have hNat : (Char.ofNat code).toNat = code := by
      rw [Char.ofNat, dif_pos hValid]
      rfl
    omega
  · have hNat : (Char.ofNat code).toNat = 0 := by
      rw [Char.ofNat, dif_neg hValid]
      rfl
    omega

/-- Some character that each name stands for is in neither of the truth values. -/
theorem any_code_of_namesUnder (letter : Char) :
    (namesUnder letter).all fun entry =>
      entry.2.any fun code => code ≤ 0x60 || code = 0x6A || 0x75 < code := by
  unfold namesUnder
  split
  all_goals decide +kernel

/-- Every known name stands for some character that is in neither of the truth values. -/
theorem exists_outside_of_namedCharacters? {name characters : List Char}
    (hName : namedCharacters? name = some characters) :
    ∃ c ∈ characters, isOutsideTruth c = true := by
  unfold namedCharacters? at hName
  split at hName
  · cases hName
  · next letter rest =>
      obtain ⟨entry, hEntry, rfl⟩ := Option.map_eq_some_iff.1 hName
      have hAny := List.all_eq_true.1 (any_code_of_namesUnder letter) entry
        (List.mem_of_find?_eq_some hEntry)
      obtain ⟨code, hCode, hOutside⟩ := List.any_eq_true.1 hAny
      refine ⟨Char.ofNat code, List.mem_map_of_mem hCode, isOutsideTruth_ofNat ?_⟩
      simpa [or_assoc] using hOutside

/-- Every name that is known without a semicolon stands for some character of that kind too. -/
theorem exists_outside_of_unterminated? {name characters : List Char}
    (hName : unterminated? name = some characters) :
    ∃ c ∈ characters, isOutsideTruth c = true := by
  unfold unterminated? at hName
  split at hName
  · exact exists_outside_of_namedCharacters? hName
  · cases hName

/-- The front of a name that is decoded writes some character of that kind too. -/
theorem exists_outside_of_decodeFront? {name characters : List Char} {length : Nat}
    (hFront : decodeFront? name length = some characters) :
    ∃ c ∈ characters, isOutsideTruth c = true := by
  induction length with
  | zero => cases hFront
  | succ length ih =>
      unfold decodeFront? at hFront
      split at hFront
      · cases hFront
      · split at hFront
        · next known hKnown =>
            cases hFront
            obtain ⟨c, hMem, hOutside⟩ := exists_outside_of_unterminated? hKnown
            exact ⟨c, List.mem_append_left _ hMem, hOutside⟩
        · exact ih hFront

/-- A reference by name writes such a character. -/
theorem exists_outside_namedValue (name : List Char) (terminated : Bool) :
    ∃ c ∈ namedValue name terminated, isOutsideTruth c = true := by
  unfold namedValue
  simp only
  split
  · next characters hWhole =>
      split at hWhole
      · exact exists_outside_of_namedCharacters? hWhole
      · exact exists_outside_of_unterminated? hWhole
  · split
    · next characters hFront =>
        obtain ⟨c, hMem, hOutside⟩ := exists_outside_of_decodeFront? hFront
        exact ⟨c, List.mem_append_left _ hMem, hOutside⟩
    · exact ⟨'&', by simp, by decide⟩

/-- What a reference takes off the text behind the ampersand holds no other ampersand, and line ends
only in a name. -/
theorem ValueReference.exists_taken {text : List Char} {reference : ValueReference}
    (hRead : ValueReference.read? text = some reference) :
    ∃ taken left, text = taken ++ left ∧ reference.length text = taken.length ∧ '&' ∉ taken ∧
      (IsOneLine taken ∨ ∃ name terminated, reference = .named name terminated) := by
  unfold ValueReference.read? at hRead
  split at hRead
  · next rest =>
      obtain ⟨numeral, hNumeral, rfl⟩ := Option.map_eq_some_iff.1 hRead
      have hSource := Numeral.isOneLine_source hNumeral
      have hPlain : '&' ∉ numeral.source := fun hMem =>
        absurd (Numeral.of_mem_source hNumeral hMem) (by decide)
      obtain ⟨left, rfl⟩ := Numeral.source_front hNumeral
      have hFront : IsOneLine ('#' :: numeral.source) :=
        isOneLine_cons.2 ⟨by decide, by decide, hSource⟩
      have hDrop : ('#' :: (numeral.source ++ left)).drop (1 + numeral.source.length) = left := by
        rw [Nat.add_comm, List.drop_succ_cons, List.drop_left]
      by_cases hSemicolon : left.head? = some ';'
      · obtain ⟨left, rfl⟩ := List.head?_eq_some_iff.1 hSemicolon
        refine ⟨'#' :: numeral.source ++ [';'], left, by simp, ?_, by simp [hPlain],
          .inl (isOneLine_append.2 ⟨hFront, by decide⟩)⟩
        simp only [ValueReference.length, hDrop, if_pos hSemicolon]
        simp [Nat.add_comm]
      · refine ⟨'#' :: numeral.source, left, by simp, ?_, by simp [hPlain], .inl hFront⟩
        simp only [ValueReference.length, hDrop, if_neg hSemicolon]
        simp [Nat.add_comm]
  · have hFront := splitRun_front (fun c _ => isReferenceName c) (text.take 32)
    have hChars (c : Char) := @forall_mem_splitRun isReferenceName (text.take 32) c
    generalize (splitRun (fun c _ => isReferenceName c) (text.take 32)).1 = name at *
    cases name with
    | nil => cases hRead
    | cons c name =>
        cases hRead
        have hPlain : '&' ∉ c :: name := fun hMem => absurd (hChars _ hMem) (by decide)
        obtain ⟨left, rfl⟩ := hFront.trans (List.take_prefix 32 text)
        rw [List.drop_left]
        by_cases hSemicolon : left.head? = some ';'
        · obtain ⟨left, rfl⟩ := List.head?_eq_some_iff.1 hSemicolon
          refine ⟨c :: name ++ [';'], left, by simp, ?_, ?_, .inr ⟨_, _, rfl⟩⟩
          · simp [ValueReference.length]
          · rw [List.mem_append, not_or]
            exact ⟨hPlain, by decide⟩
        · refine ⟨c :: name, left, rfl, ?_, hPlain, .inr ⟨_, _, rfl⟩⟩
          simp [ValueReference.length, hSemicolon]

/-- What was decoded before stands in front of what is still to be decoded. -/
theorem decodeValueOnto_eq (done text : List Char) :
    decodeValueOnto done text = done.reverse ++ decodeValue text := by
  induction hLength : text.length using Nat.strongRecOn generalizing done text with
  | ind length ih =>
    have hLater (rest : List Char) (hShorter : rest.length < length) (done : List Char) :=
      ih rest.length hShorter done rest rfl
    unfold decodeValue
    cases text with
    | nil => simp [decodeValueOnto]
    | cons c rest =>
        rw [List.length_cons] at hLength
        by_cases hC : c = '&'
        · subst hC
          rw [decodeValueOnto, decodeValueOnto]
          cases hRead : ValueReference.read? rest with
          | none =>
              simp only [hLater rest (by omega)]
              simp
          | some reference =>
              have hShorter : (rest.drop (reference.length rest)).length < length := by
                rw [List.length_drop]
                omega
              simp only [hLater _ hShorter]
              simp
        · rw [decodeValueOnto.eq_3 _ _ _ hC, decodeValueOnto.eq_3 _ _ _ hC,
            hLater rest (by omega), hLater rest (by omega)]
          simp

theorem decodeValue_cons {c : Char} (hC : c ≠ '&') (rest : List Char) :
    decodeValue (c :: rest) = c :: decodeValue rest := by
  rw [decodeValue, decodeValueOnto.eq_3 _ _ _ hC, decodeValueOnto_eq]
  rfl

/-- A reference writes its characters, and an ampersand that begins none stands for itself. -/
theorem decodeValue_reference (rest : List Char) :
    decodeValue ('&' :: rest) =
      match ValueReference.read? rest with
      | some reference => reference.decoded ++ decodeValue (rest.drop (reference.length rest))
      | none => '&' :: decodeValue rest := by
  rw [decodeValue, decodeValueOnto]
  cases ValueReference.read? rest with
  | none => exact decodeValueOnto_eq ['&'] rest
  | some reference =>
      simp only [decodeValueOnto_eq]
      simp

/-- A value with a line end writes a character that stands in neither of the truth values. -/
theorem exists_outside_decodeValue {text : List Char} (hText : ¬ IsOneLine text) :
    ∃ c ∈ decodeValue text, isOutsideTruth c = true := by
  induction hLength : text.length using Nat.strongRecOn generalizing text with
  | ind length ih =>
    cases text with
    | nil => exact absurd ⟨by simp, by simp⟩ hText
    | cons c rest =>
        rw [List.length_cons] at hLength
        by_cases hC : c = '&'
        · subst hC
          rw [decodeValue_reference]
          cases hRead : ValueReference.read? rest with
          | none => exact ⟨'&', List.mem_cons_self .., by decide⟩
          | some reference =>
              obtain ⟨taken, left, rfl, hTaken, -, hKind⟩ := ValueReference.exists_taken hRead
              rcases hKind with hOneLine | ⟨name, terminated, rfl⟩
              · have hLeft : ¬ IsOneLine left := fun hLeft =>
                  hText (isOneLine_cons.2 ⟨by decide, by decide,
                    isOneLine_append.2 ⟨hOneLine, hLeft⟩⟩)
                have hShorter : left.length < length := by
                  rw [List.length_append] at hLength
                  omega
                obtain ⟨d, hMem, hOutside⟩ := ih left.length hShorter hLeft rfl
                refine ⟨d, List.mem_append_right _ ?_, hOutside⟩
                rwa [hTaken, List.drop_left]
              · obtain ⟨d, hMem, hOutside⟩ := exists_outside_namedValue name terminated
                exact ⟨d, List.mem_append_left _ hMem, hOutside⟩
        · rw [decodeValue_cons hC]
          by_cases hOutside : isOutsideTruth c = true
          · exact ⟨c, List.mem_cons_self .., hOutside⟩
          · have hRest : ¬ IsOneLine rest := by
              refine fun hRest => hText (isOneLine_cons.2 ⟨?_, ?_, hRest⟩)
              · rintro rfl
                exact hOutside (by decide)
              · rintro rfl
                exact hOutside (by decide)
            obtain ⟨d, hMem, hD⟩ := ih rest.length (by omega) hRest rfl
            exact ⟨d, List.mem_cons_of_mem _ hMem, hD⟩

/-- All such values are alike to the rules for ARIA attributes. -/
theorem isValid_of_outside {text : List Char} (hText : ∃ c ∈ text, isOutsideTruth c = true)
    (name : String) :
    Aria.isValid name (some (String.ofList text)) =
      (Aria.knownNames.contains name && !Aria.booleanNames.contains name) := by
  obtain ⟨c, hMem, hOutside⟩ := hText
  have hNot {word : String} (hWord : word.toList.any isOutsideTruth = false) :
      String.ofList text ≠ word := by
    rintro rfl
    rw [String.toList_ofList] at hWord
    exact List.any_eq_false.1 hWord c hMem hOutside
  have hTrue : String.ofList text ≠ "true" := hNot (by decide +kernel)
  have hFalse : String.ofList text ≠ "false" := hNot (by decide +kernel)
  have hEmpty : String.ofList text ≠ "" := hNot (by decide +kernel)
  unfold Aria.isValid
  cases Aria.booleanNames.contains name with
  | true => simp [hTrue, hFalse]
  | false => simp [hEmpty]

/-- Whether a value is allowed does not hang on how lines end. -/
theorem isValid_decodeValue_unifyLineEnds (name : String) (text : List Char) :
    Aria.isValid name (some (String.ofList (decodeValue (unifyLineEnds text)))) =
      Aria.isValid name (some (String.ofList (decodeValue text))) := by
  by_cases hReturn : '\r' ∈ text
  · have hText : ¬ IsOneLine text := fun hOneLine => hOneLine.1 hReturn
    have hUnified : ¬ IsOneLine (unifyLineEnds text) := fun hOneLine =>
      hText (isOneLine_unifyLineEnds.1 hOneLine)
    rw [isValid_of_outside (exists_outside_decodeValue hText),
      isValid_of_outside (exists_outside_decodeValue hUnified)]
  · rw [unifyLineEnds_of_not_mem hReturn]

theorem suffix_append_iff {c : Char} {taken : List Char} (hTaken : c ∉ taken)
    {rest left : List Char} : c :: rest <:+ taken ++ left ↔ c :: rest <:+ left := by
  induction taken with
  | nil => rfl
  | cons d taken ih =>
      obtain ⟨hC, hTaken⟩ := not_or.1 (mt List.mem_cons.2 hTaken)
      rw [List.cons_append, List.suffix_cons_iff, ih hTaken]
      exact or_iff_right fun hEq => hC (List.cons.inj hEq).1

/-- A value has a reference of too many digits where one stands behind some ampersand of it. -/
theorem overlongReference?_eq_none_iff {text : List Char} :
    overlongReference? text = none ↔ ∀ rest, '&' :: rest <:+ text →
      (ValueReference.read? rest).bind ValueReference.overlong? = none := by
  induction hLength : text.length using Nat.strongRecOn generalizing text with
  | ind length ih =>
    cases text with
    | nil => simp [overlongReference?]
    | cons c rest =>
        rw [List.length_cons] at hLength
        by_cases hC : c = '&'
        · subst hC
          have hFirst : (∀ left, '&' :: left <:+ '&' :: rest →
              (ValueReference.read? left).bind ValueReference.overlong? = none) ↔
              (ValueReference.read? rest).bind ValueReference.overlong? = none ∧
                ∀ left, '&' :: left <:+ rest →
                  (ValueReference.read? left).bind ValueReference.overlong? = none := by
            simp only [List.suffix_cons_iff, List.cons.injEq, true_and, forall_eq_or_imp]
          rw [hFirst, overlongReference?]
          cases hRead : ValueReference.read? rest with
          | none => simpa using ih rest.length (by omega) rfl
          | some reference =>
              obtain ⟨taken, left, rfl, hTaken, hPlain, -⟩ := ValueReference.exists_taken hRead
              have hShorter : left.length < length := by
                rw [List.length_append] at hLength
                omega
              simp only [suffix_append_iff hPlain, hTaken, List.drop_left, Option.bind_some,
                ← ih left.length hShorter rfl]
              cases reference.overlong? <;> simp
        · rw [overlongReference?.eq_3 _ _ hC, ih rest.length (by omega) rfl]
          simp [List.suffix_cons_iff, Ne.symm hC]

/-- Only numbers may have too many digits. -/
theorem bind_overlong_of_head? {text : List Char} (hHead : text.head? ≠ some '#') :
    (ValueReference.read? text).bind ValueReference.overlong? = none := by
  unfold ValueReference.read?
  split
  · exact absurd rfl hHead
  · generalize (splitRun (fun c _ => isReferenceName c) (text.take 32)).1 = name
    cases name <;> rfl

/-- A reference has too many digits where it had too many. -/
theorem bind_overlong_unifyLineEnds (text : List Char) :
    (ValueReference.read? (unifyLineEnds text)).bind ValueReference.overlong? =
      (ValueReference.read? text).bind ValueReference.overlong? := by
  by_cases hHead : text.head? = some '#'
  · obtain ⟨rest, rfl⟩ := List.head?_eq_some_iff.1 hHead
    rw [unifyLineEnds_cons (by decide)]
    simp only [ValueReference.read?, Numeral.read?_unifyLineEnds]
  · rw [bind_overlong_of_head? hHead, bind_overlong_of_head? fun hUnified =>
      hHead ((head?_unifyLineEnds_eq_some (by decide)).1 hUnified).1]

/-- No number gets more digits. -/
theorem overlongReference?_unifyLineEnds {text : List Char}
    (hText : overlongReference? text = none) : overlongReference? (unifyLineEnds text) = none := by
  rw [overlongReference?_eq_none_iff] at hText ⊢
  intro rest hSuffix
  obtain ⟨left, hLeft, rfl⟩ := exists_suffix_of_unifyLineEnds (by decide) hSuffix
  rw [bind_overlong_unifyLineEnds]
  exact hText left hLeft

end AccessibleMarkup.Markup
