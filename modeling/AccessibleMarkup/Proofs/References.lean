import AccessibleMarkup.Proofs.Assignment
import AccessibleMarkup.Proofs.Consumption

/-! Character references in a text that goes on differently. A numeral or a name ends before the
first character that does not continue it, and a semicolon belongs to it; so a reference depends on
one character behind it and on nothing else, as long as there is more text. -/
namespace AccessibleMarkup.Markup

open AccessibleMarkup.Text

theorem Stops.of_head? {test : Char → Bool} {text other : List Char} (hStops : Stops test text)
    (hHead : other.head? = text.head?) : Stops test other := by
  cases text with
  | nil =>
      rw [List.head?_eq_none_iff.1 hHead]
      trivial
  | cons c text =>
      obtain ⟨later, rfl⟩ := List.head?_eq_some_iff.1 hHead
      exact hStops

theorem semicolon_of_head? {text other : List Char} (hHead : other.head? = text.head?) :
    semicolon other = semicolon text := by
  rw [semicolon, semicolon, hHead]

/-- A semicolon belongs to what stands before it, and then what stands behind it does not matter. -/
theorem head?_semicolon_append {text rest other : List Char}
    (hText : semicolon text ++ rest = text) (hHead : other.head? = rest.head?) :
    (semicolon text ++ other).head? = text.head? := by
  conv_rhs => rw [← hText]
  simp [List.head?_append, hHead]

theorem isDigit_of_not_isHexDigit {text : List Char} (hStops : Stops isHexDigit text) :
    Stops Char.isDigit text := by
  cases text with
  | nil => trivial
  | cons c text =>
      have hC : isHexDigit c = false := hStops
      simp only [isHexDigit, Bool.or_eq_false_iff] at hC
      exact hC.1.1

/-- A numeral is read in its whole length: digits of one kind, and none of this kind behind them. -/
theorem Numeral.read?_eq_some_iff {text : List Char} {numeral : Numeral} :
    Numeral.read? text = some numeral ↔
      (∃ mark digits rest, numeral = .hexadecimal mark digits ∧ (mark = 'x' ∨ mark = 'X') ∧
        digits ≠ [] ∧ text = mark :: digits ++ rest ∧ (∀ c ∈ digits, isHexDigit c = true) ∧
        Stops isHexDigit rest) ∨
      ∃ digits rest, numeral = .decimal digits ∧ digits ≠ [] ∧ text = digits ++ rest ∧
        (∀ c ∈ digits, c.isDigit = true) ∧ Stops Char.isDigit rest := by
  cases text with
  | nil =>
      simp only [Numeral.read?, reduceCtorEq, false_iff]
      rintro (⟨mark, digits, rest, -, -, -, hText, -⟩ | ⟨digits, rest, -, hNonempty, hText, -⟩)
      · simp at hText
      · exact hNonempty (List.append_eq_nil_iff.1 hText.symm).1
  | cons c tail =>
      by_cases hMark : c = 'x' ∨ c = 'X'
      · rcases hRun : splitRun (fun c _ => isHexDigit c) tail with ⟨run, behind⟩
        obtain ⟨rfl, hDigits, hStops⟩ := splitRun_eq_iff.1 hRun
        have hNoDigit : c.isDigit = false := by
          rcases hMark with rfl | rfl <;> rfl
        constructor
        · intro hRead
          simp only [Numeral.read?, hRun, Bool.or_eq_true, decide_eq_true_eq, hMark, if_true] at hRead
          split at hRead
          · simp at hRead
          · rename_i hNonempty
            cases hRead
            exact .inl ⟨c, run, behind, rfl, hMark, hNonempty, rfl, hDigits, hStops⟩
        · rintro (⟨mark, digits, rest, rfl, -, hNonempty, hText, hHex, hRest⟩ |
            ⟨digits, rest, -, hNonempty, hText, hAll, -⟩)
          · obtain ⟨rfl, hTail⟩ := List.cons.inj hText
            have hSame := hRun.symm.trans (splitRun_eq_iff.2 ⟨hTail, hHex, hRest⟩)
            obtain ⟨rfl, -⟩ := Prod.mk.inj hSame
            simp only [Numeral.read?, hRun, Bool.or_eq_true, decide_eq_true_eq, hMark, if_true]
          · cases digits with
            | nil => exact absurd rfl hNonempty
            | cons d digits =>
                have hD := hAll d (List.mem_cons_self ..)
                rw [← (List.cons.inj hText).1, hNoDigit] at hD
                simp at hD
      · rcases hRun : splitRun (fun c _ => c.isDigit) (c :: tail) with ⟨run, behind⟩
        obtain ⟨hJoin, hDigits, hStops⟩ := splitRun_eq_iff.1 hRun
        constructor
        · intro hRead
          simp only [Numeral.read?, hRun, Bool.or_eq_true, decide_eq_true_eq, hMark, if_false] at hRead
          split at hRead
          · simp at hRead
          · rename_i hNonempty
            cases hRead
            exact .inr ⟨run, behind, rfl, hNonempty, hJoin, hDigits, hStops⟩
        · rintro (⟨mark, digits, rest, -, hIsMark, -, hText, -⟩ |
            ⟨digits, rest, rfl, hNonempty, hText, hAll, hRest⟩)
          · rw [(List.cons.inj hText).1] at hMark
            exact absurd hIsMark hMark
          · have hSame := hRun.symm.trans (splitRun_eq_iff.2 ⟨hText, hAll, hRest⟩)
            obtain ⟨rfl, -⟩ := Prod.mk.inj hSame
            simp only [Numeral.read?, hRun, Bool.or_eq_true, decide_eq_true_eq, hMark, if_false]

/-- A numeral ends before what is no hexadecimal digit. -/
theorem Numeral.read?_append {numeral : Numeral} {tail other : List Char}
    (hRead : Numeral.read? (numeral.source ++ tail) = some numeral)
    (hOther : Stops isHexDigit other) :
    Numeral.read? (numeral.source ++ other) = some numeral := by
  rcases Numeral.read?_eq_some_iff.1 hRead with
    ⟨mark, digits, rest, rfl, hMark, hNonempty, -, hDigits, -⟩ |
    ⟨digits, rest, rfl, hNonempty, -, hDigits, -⟩
  · exact Numeral.read?_eq_some_iff.2
      (.inl ⟨mark, digits, other, rfl, hMark, hNonempty, rfl, hDigits, hOther⟩)
  · exact Numeral.read?_eq_some_iff.2
      (.inr ⟨digits, other, rfl, hNonempty, rfl, hDigits, isDigit_of_not_isHexDigit hOther⟩)

/-- A numeral is read whatever follows, if that begins with the same character. -/
theorem numericReference?_append {numeral : Numeral} {tail other : List Char}
    (hRead : numericReference? (numeral.source ++ tail) = some numeral)
    (hHead : other.head? = tail.head?) :
    numericReference? (numeral.source ++ other) = some numeral := by
  unfold numericReference? at hRead
  split at hRead
  · simp at hRead
  · rename_i found hFound
    split at hRead
    · simp at hRead
    · rename_i c behind hDrop
      split at hRead
      · simp at hRead
      · rename_i hHex
        cases hRead
        rw [List.drop_left] at hDrop
        subst hDrop
        obtain ⟨later, rfl⟩ := List.head?_eq_some_iff.1 hHead
        have hC : isHexDigit c = false := by simpa using hHex
        have hOther : Stops isHexDigit (c :: later) := hC
        rw [numericReference?, Numeral.read?_append hFound hOther]
        simp only [List.drop_left, hC]
        rfl

/-- The name of a reference is not empty. -/
theorem referenceName?_ne_nil {text name : List Char} (hName : referenceName? text = some name) :
    name ≠ [] := by
  unfold referenceName? at hName
  split at hName
  · simp at hName
  · split at hName
    · split at hName
      · cases hName
        simp
      · split at hName
        · simp at hName
        · cases hName
          simp
    · simp at hName

/-- A name ends before what does not continue it. There is more text, so nothing is given back. -/
theorem referenceName?_append {name tail other : List Char}
    (hName : referenceName? (name ++ tail) = some name) (hOpen : '<' ∈ tail)
    (hHead : other.head? = tail.head?) : referenceName? (name ++ other) = some name := by
  have hContinues : continuesReference '<' = false := by decide
  cases name with
  | nil => exact absurd rfl (referenceName?_ne_nil hName)
  | cons c run =>
      simp only [List.cons_append, referenceName?] at hName ⊢
      split at hName
      · rename_i hLetter
        rcases hRun : splitRun (fun c _ => continuesReference c) (run ++ tail) with ⟨found, behind⟩
        obtain ⟨hJoin, hFound, hStops⟩ := splitRun_eq_iff.1 hRun
        rw [hRun] at hName
        cases behind with
        | nil =>
            have hMem : '<' ∈ found := by
              rw [List.append_nil] at hJoin
              rw [← hJoin]
              exact List.mem_append_right _ hOpen
            simp [hFound '<' hMem] at hContinues
        | cons d behind =>
            cases hName
            have hTail := List.append_cancel_left hJoin
            subst hTail
            obtain ⟨later, rfl⟩ := List.head?_eq_some_iff.1 hHead
            have hOther : splitRun (fun c _ => continuesReference c) (run ++ d :: later) =
                (run, d :: later) := splitRun_eq_iff.2 ⟨rfl, hFound, hStops⟩
            rw [if_pos hLetter, hOther]
      · simp at hName

theorem referenceStep_other {c : Char} (hHash : c ≠ '#') (pass : Pass) (behind : List Char) :
    referenceStep pass (c :: behind) =
      if isLetter c then
        match referenceName? (c :: behind) with
        | some name =>
            .token (.named name) (name ++ semicolon ((c :: behind).drop name.length)) none
        | none => if behind.isEmpty && pass = .last then .lastToken .ignored [] else .stop
      else .token .text [] none := by
  unfold referenceStep
  split
  · rename_i hNil
    cases hNil
  · rename_i hText
    cases hText
    exact absurd rfl hHash
  · rename_i hText
    cases hText
    rfl

/-- A reference before some `<` is read whatever follows, if that begins with the same character. -/
theorem referenceStep_append {text more rest other : List Char} {content : Content}
    {next : Option (List Char)} (hStep : referenceStep .first text = .token content more next)
    (hText : more ++ rest = text) (hOpen : '<' ∈ rest) (hHead : other.head? = rest.head?) :
    referenceStep .first (more ++ other) = .token content more next := by
  unfold referenceStep at hStep
  split at hStep
  · simp at hStep
  · rename_i text
    split at hStep
    · rename_i numeral hNumeral
      cases hStep
      obtain ⟨tail, rfl⟩ := Numeral.source_front (read?_of_numericReference? hNumeral)
      simp only [List.drop_left, List.cons_append, List.append_assoc, List.cons.injEq, true_and,
        List.append_cancel_left_eq] at hText ⊢
      have hSame := head?_semicolon_append hText hHead
      simp only [referenceStep, numericReference?_append hNumeral hSame, List.drop_left,
        semicolon_of_head? hSame, List.cons_append]
    · split at hStep <;> simp at hStep
  · rename_i c behind hHash
    split at hStep
    · rename_i hLetter
      split at hStep
      · rename_i name hName
        cases hStep
        obtain ⟨tail, hTail⟩ := referenceName?_front hName
        rw [← hTail] at hText hName ⊢
        simp only [List.drop_left, List.append_assoc, List.append_cancel_left_eq] at hText ⊢
        have hSame := head?_semicolon_append hText hHead
        have hInTail : '<' ∈ tail := by
          rw [← hText]
          exact List.mem_append_right _ hOpen
        have hOther := referenceName?_append hName hInTail hSame
        cases name with
        | nil => exact absurd rfl (referenceName?_ne_nil hOther)
        | cons d name =>
            have hFirst : d = c := (List.cons.inj hTail).1
            subst hFirst
            have hDrop : (d :: (name ++ (semicolon tail ++ other))).drop (d :: name).length =
                semicolon tail ++ other := by
              rw [← List.cons_append, List.drop_left]
            rw [List.cons_append] at hOther ⊢
            rw [referenceStep_other hHash, if_pos hLetter, hOther]
            simp only [hDrop, semicolon_of_head? hSame]
      · split at hStep <;> simp at hStep
    · rename_i hLetter
      cases hStep
      rw [List.nil_append] at hText ⊢
      rw [hText] at hHead
      obtain ⟨later, rfl⟩ := List.head?_eq_some_iff.1 hHead
      rw [referenceStep_other hHash, if_neg hLetter]

end AccessibleMarkup.Markup
