import AccessibleMarkup.Proofs.Assignment
import AccessibleMarkup.Proofs.JsonStrings

/-! Numbers of JSON texts. A number is printed in digits, with a sign where it is negative and an
exponent where it is no whole one, and is read back where nothing follows that would continue it. -/
namespace AccessibleMarkup.Json

open AccessibleMarkup.Markup
open AccessibleMarkup.Text

theorem ne_of_isDigit {d c : Char} (hDigit : d.isDigit = true) (hOther : c.isDigit = false) :
    d ≠ c := by
  rintro rfl
  rw [hDigit] at hOther
  cases hOther

/-- The character would be read as a part of a number. -/
def continuesNumber (c : Char) : Bool :=
  c.isDigit || c = '.' || c = 'e' || c = 'E'

/-- A number comes back from its digits. -/
theorem digitsValue_toDigits (value : Nat) : digitsValue (Nat.toDigits 10 value) = value := by
  have hRead : digitsValue (Nat.toDigits 10 value) =
      Nat.ofDigitChars 10 (Nat.toDigits 10 value) 0 := rfl
  rw [hRead, Nat.ofDigitChars_toDigits (by decide) (by decide)]

/-- A number of more than one digit does not begin with zero. -/
theorem head?_toDigits {value : Nat} (hValue : value ≠ 0) :
    (Nat.toDigits 10 value).head? ≠ some '0' := by
  induction value using Nat.strongRecOn with
  | ind value ih =>
      by_cases hSmall : value < 10
      · rw [Nat.toDigits_of_lt_base hSmall]
        simpa using hValue
      · have hRest := ih (value / 10) (by omega) (by omega)
        rw [Nat.toDigits_of_base_le (by decide) (by omega)]
        cases hDigits : Nat.toDigits 10 (value / 10) with
        | nil => exact absurd hDigits Nat.toDigits_ne_nil
        | cons d digits => simpa [hDigits] using hRest

/-- No number begins with a zero that could be left out. -/
theorem leadingZero (value : Nat) :
    ¬ ((Nat.toDigits 10 value).head? = some '0' ∧ (Nat.toDigits 10 value).length ≠ 1) := by
  rintro ⟨hHead, hLength⟩
  by_cases hValue : value = 0
  · simp [hValue] at hLength
  · exact head?_toDigits hValue hHead

/-- The digits of a number are read as far as they go. -/
theorem exists_readDigits (value : Nat) {rest : List Char} (hRest : Stops Char.isDigit rest) :
    ∃ d digits, Nat.toDigits 10 value = d :: digits ∧ d.isDigit = true ∧
      digitsValue (d :: digits) = value ∧
      readDigits (d :: (digits ++ rest)) = (d :: digits, rest) := by
  have hDigit : ∀ c ∈ Nat.toDigits 10 value, c.isDigit = true := fun _ hMem =>
    Nat.isDigit_of_mem_toDigits (by decide) (by decide) hMem
  have hRead : readDigits (Nat.toDigits 10 value ++ rest) = (Nat.toDigits 10 value, rest) :=
    splitRun_eq_iff.2 ⟨rfl, hDigit, hRest⟩
  have hValue := digitsValue_toDigits value
  cases hDigits : Nat.toDigits 10 value with
  | nil => exact absurd hDigits Nat.toDigits_ne_nil
  | cons d digits =>
      rw [hDigits] at hDigit hRead hValue
      exact ⟨d, digits, rfl, hDigit d (List.mem_cons_self ..), hValue, hRead⟩

theorem stops_of_continuesNumber {rest : List Char} (hRest : Stops continuesNumber rest) :
    Stops Char.isDigit rest ∧ Stops (· = '.') rest ∧ Stops (fun c => c = 'e' || c = 'E') rest := by
  cases rest with
  | nil => exact ⟨trivial, trivial, trivial⟩
  | cons c rest => simpa [continuesNumber, and_assoc] using hRest

/-- Without a point there is no fraction. -/
theorem readFraction?_none {rest : List Char} (hRest : Stops (· = '.') rest) :
    readFraction? rest = some ([], rest) := by
  rw [readFraction?]
  rintro rest rfl
  simp at hRest

/-- Without its letter there is no exponent. -/
theorem readExponent?_none {rest : List Char} (hRest : Stops (fun c => c = 'e' || c = 'E') rest) :
    readExponent? rest = some (none, rest) := by
  cases rest with
  | nil => rfl
  | cons c rest =>
      have hNot : ¬ (c = 'e' ∨ c = 'E') := by simpa using hRest
      simp [readExponent?, hNot]

theorem toList_toString_ofNat (value : Nat) :
    (toString (Int.ofNat value)).toList = Nat.toDigits 10 value := by
  have hText : toString (Int.ofNat value) = toString value := rfl
  rw [hText]
  simp

theorem toList_toString_negSucc (value : Nat) :
    (toString (Int.negSucc value)).toList = '-' :: Nat.toDigits 10 (value + 1) := by
  have hText : toString (Int.negSucc value) = "-" ++ toString (value + 1) := rfl
  simp [hText]

/-- A printed exponent is read back. -/
theorem readExponent?_print (exponent : Int) {rest : List Char}
    (hRest : Stops continuesNumber rest) :
    readExponent? ('e' :: ((toString exponent).toList ++ rest)) = some (some exponent, rest) := by
  obtain ⟨hStops, -, -⟩ := stops_of_continuesNumber hRest
  cases exponent with
  | ofNat value =>
      obtain ⟨d, digits, hDigits, hDigit, hValue, hRead⟩ := exists_readDigits value hStops
      have hMinus : d ≠ '-' := ne_of_isDigit hDigit (by decide)
      have hPlus : d ≠ '+' := ne_of_isDigit hDigit (by decide)
      rw [toList_toString_ofNat, hDigits, List.cons_append, readExponent?]
      · simp [hRead, hValue]
      · exact fun _ hSame => hMinus (List.cons.inj hSame).1
      · exact fun _ hSame => hPlus (List.cons.inj hSame).1
  | negSucc value =>
      obtain ⟨d, digits, hDigits, -, hValue, hRead⟩ := exists_readDigits (value + 1) hStops
      have hSize : Int.negSucc value = -((value + 1 : Nat) : Int) := rfl
      rw [toList_toString_negSucc, hDigits, List.cons_append, List.cons_append, hSize,
        readExponent?]
      simp [hRead, hValue]

/-- Behind the digits of a number stands its exponent, or none. -/
theorem readMagnitude?_digits (negative : Bool) (size : Nat) {rest : List Char}
    (hStops : Stops Char.isDigit rest) (hPoint : Stops (· = '.') rest) :
    readMagnitude? negative (Nat.toDigits 10 size ++ rest) =
      (readExponent? rest).map fun read =>
        (read.1.elim (.number (if negative then -(size : Int) else size))
          (.decimal negative size), read.2) := by
  obtain ⟨d, digits, hDigits, -, hValue, hRead⟩ := exists_readDigits size hStops
  have hZero := leadingZero size
  rw [hDigits] at hZero
  rw [hDigits, List.cons_append, readMagnitude?]
  simp only [hRead]
  rw [if_neg hZero, readFraction?_none hPoint]
  simp only [Option.bind_eq_bind, Option.bind_some]
  rcases readExponent? rest with - | ⟨- | exponent, behind⟩
  · rfl
  · simp [hValue]
  · simp [hValue]

/-- A whole number is read back from its digits. -/
theorem readMagnitude?_whole (negative : Bool) (value : Nat) {rest : List Char}
    (hRest : Stops continuesNumber rest) :
    readMagnitude? negative (Nat.toDigits 10 value ++ rest) =
      some (.number (if negative then -(value : Int) else value), rest) := by
  obtain ⟨hStops, hPoint, hExponent⟩ := stops_of_continuesNumber hRest
  rw [readMagnitude?_digits negative value hStops hPoint, readExponent?_none hExponent]
  rfl

/-- A decimal number is read back from its digits and its exponent. -/
theorem readMagnitude?_decimal (negative : Bool) (significand : Nat) (exponent : Int)
    {rest : List Char} (hRest : Stops continuesNumber rest) :
    readMagnitude? negative
        (Nat.toDigits 10 significand ++ 'e' :: ((toString exponent).toList ++ rest)) =
      some (.decimal negative significand exponent, rest) := by
  rw [readMagnitude?_digits negative significand (by simp) (by simp),
    readExponent?_print exponent hRest]
  rfl

theorem isAscii_toDigits (value : Nat) : IsAscii (Nat.toDigits 10 value) := fun c hMem => by
  have hDigit := Nat.isDigit_of_mem_toDigits (by decide) (by decide) hMem
  simp only [Char.isDigit, Bool.and_eq_true, decide_eq_true_eq] at hDigit
  have hRange : c.toNat ≤ 0x39 := hDigit.2
  omega

theorem isAscii_toString (value : Int) : IsAscii (toString value).toList := by
  cases value with
  | ofNat value =>
      rw [toList_toString_ofNat]
      exact isAscii_toDigits value
  | negSucc value =>
      rw [toList_toString_negSucc]
      exact isAscii_cons.2 ⟨by decide, isAscii_toDigits _⟩

/-- A decimal number is printed in ASCII. -/
theorem isAscii_printDecimal (negative : Bool) (significand : Nat) (exponent : Int) :
    IsAscii (printDecimal negative significand exponent) := by
  have hSign : IsAscii (if negative then ['-'] else []) := by
    cases negative <;> decide
  rw [printDecimal, Nat.toString_eq_repr, Nat.toList_repr]
  exact isAscii_append.2 ⟨isAscii_append.2 ⟨hSign, isAscii_toDigits significand⟩,
    isAscii_cons.2 ⟨by decide, isAscii_toString exponent⟩⟩

end AccessibleMarkup.Json
