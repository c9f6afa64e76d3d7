import AccessibleMarkup.Json.Printer
import AccessibleMarkup.Json.Reader
import Mathlib.Tactic.SplitIfs

/-! Strings of JSON texts. Every character is printed so that the reader takes exactly this
character back off the text, whatever follows: itself, an escape of one letter, or the escapes of
its UTF-16 code units. -/
namespace AccessibleMarkup.Json

open AccessibleMarkup.Text

/-- Hexadecimal digits are read as what they were written for. -/
theorem hexValue?_hexDigit {value : Nat} (hValue : value < 16) :
    hexValue? (hexDigit value) = some value := by
  have hAll : ∀ value < 16, hexValue? (hexDigit value) = some value := by decide
  exact hAll value hValue

/-- A code unit comes back from its four hexadecimal digits. -/
theorem exists_hexDigits (unit : Nat) :
    ∃ a b c d, hexDigits 4 unit = [a, b, c, d] ∧ unitValue? a b c d = some (unit % 0x10000) := by
  refine ⟨_, _, _, _, rfl, ?_⟩
  have hDigit (value : Nat) := hexValue?_hexDigit (Nat.mod_lt value (by decide : 0 < 16))
  simp only [unitValue?, hDigit]
  simp only [Option.pure_def, Option.bind_eq_bind, Option.bind_some, Option.some.injEq]
  omega

/-- An escape is one code unit, and the text goes on behind it. -/
theorem exists_unitEscape {unit : Nat} (hUnit : unit < 0x10000) :
    ∃ a b c d, unitEscape unit = ['\\', 'u', a, b, c, d] ∧ unitValue? a b c d = some unit := by
  obtain ⟨a, b, c, d, hDigits, hValue⟩ := exists_hexDigits unit
  rw [Nat.mod_eq_of_lt hUnit] at hValue
  exact ⟨a, b, c, d, by rw [unitEscape, hDigits], hValue⟩

/-- A code unit that is no half of a pair is a character. -/
theorem readStringOnto_unit (done rest : List Char) {unit : Nat}
    (hUnit : unit < 0xD800 ∨ 0xDFFF < unit) (hSmall : unit < 0x10000) :
    readStringOnto done (unitEscape unit ++ rest) =
      readStringOnto (Char.ofNat unit :: done) rest := by
  obtain ⟨a, b, c, d, hEscape, hValue⟩ := exists_unitEscape hSmall
  have hHigh : isHighUnit unit = false := by
    simp [isHighUnit]
    omega
  have hLow : isLowUnit unit = false := by
    simp [isLowUnit]
    omega
  rw [hEscape]
  simp only [List.cons_append, List.nil_append]
  rw [readStringOnto]
  simp [hValue, hHigh, hLow, loneUnit]

/-- Two code units that are the halves of a pair are one character. -/
theorem readStringOnto_pair (done rest : List Char) {high low : Nat}
    (hHigh : isHighUnit high = true) (hLow : isLowUnit low = true) :
    readStringOnto done (unitEscape high ++ unitEscape low ++ rest) =
      readStringOnto (pairedUnits high low :: done) rest := by
  have hHighSmall : high < 0x10000 := by
    simp [isHighUnit] at hHigh
    omega
  have hLowSmall : low < 0x10000 := by
    simp [isLowUnit] at hLow
    omega
  obtain ⟨a, b, c, d, hFirst, hFirstValue⟩ := exists_unitEscape hHighSmall
  obtain ⟨e, f, g, h, hSecond, hSecondValue⟩ := exists_unitEscape hLowSmall
  rw [hFirst, hSecond]
  simp only [List.cons_append, List.nil_append]
  rw [readStringOnto]
  simp [hFirstValue, hHigh, unitEscape?, hSecondValue, Option.filter, hLow]

/-- An escape of one letter is read as its character. -/
theorem readStringOnto_short (done rest : List Char) {letter c : Char} (hLetter : letter ≠ 'u')
    (hShort : shortEscape? letter = some c) :
    readStringOnto done ('\\' :: letter :: rest) = readStringOnto (c :: done) rest := by
  rw [readStringOnto]
  · simp [hShort]
  · intro a b c d rest' hU
    exact absurd hU hLetter

/-- A printable character that is no quote and no backslash stands for itself. -/
theorem readStringOnto_plain (done rest : List Char) {c : Char} (hPrintable : 0x20 ≤ c.toNat)
    (hQuote : c ≠ '"') (hBackslash : c ≠ '\\') :
    readStringOnto done (c :: rest) = readStringOnto (c :: done) rest := by
  rw [readStringOnto]
  · have hLess : ¬ c.toNat < 0x20 := by omega
    simp [hLess, hBackslash]
  · exact fun hSame => absurd hSame hQuote
  · exact fun _ _ _ _ _ hSame => absurd hSame hBackslash
  · exact fun _ _ hSame => absurd hSame hBackslash

/-- A code point beyond sixteen bits comes back from its two code units. -/
theorem pairedUnits_ofCode {code : Nat} (hLarge : 0x10000 ≤ code) :
    pairedUnits (0xD800 + (code - 0x10000) / 0x400) (0xDC00 + (code - 0x10000) % 0x400) =
      Char.ofNat code := by
  have hCode : 0x10000 + (0xD800 + (code - 0x10000) / 0x400 - 0xD800) * 0x400 +
      (0xDC00 + (code - 0x10000) % 0x400 - 0xDC00) = code := by omega
  rw [pairedUnits, hCode]

/-- A character that has no other form is read back from its code units. -/
theorem readStringOnto_codeEscapes (done rest : List Char) (c : Char) :
    readStringOnto done (codeEscapes c.toNat ++ rest) = readStringOnto (c :: done) rest := by
  have hValid : c.toNat < 0xD800 ∨ 0xDFFF < c.toNat ∧ c.toNat < 0x110000 := c.valid
  unfold codeEscapes
  split
  · rename_i hSmall
    rw [readStringOnto_unit done rest (by omega) hSmall, Char.ofNat_toNat]
  · rename_i hLarge
    rw [readStringOnto_pair done rest, pairedUnits_ofCode (by omega), Char.ofNat_toNat]
    · simp only [isHighUnit, Bool.and_eq_true, decide_eq_true_eq]
      omega
    · simp only [isLowUnit, Bool.and_eq_true, decide_eq_true_eq]
      omega

/-- The forms in which a character is printed. -/
theorem stringChar_cases (c : Char) :
    (∃ letter, letter ≠ 'u' ∧ letter.toNat < 0x80 ∧ shortEscape? letter = some c ∧
        stringChar c = ['\\', letter]) ∨
      (0x20 ≤ c.toNat ∧ c.toNat < 0x80 ∧ c ≠ '"' ∧ c ≠ '\\' ∧ stringChar c = [c]) ∨
      stringChar c = codeEscapes c.toNat := by
  by_cases hSelf : c = '"' ∨ c = '\\'
  · refine .inl ⟨c, ?_⟩
    rcases hSelf with rfl | rfl <;> decide
  · obtain ⟨hQuote, hBackslash⟩ := not_or.1 hSelf
    simp only [stringChar, hQuote, hBackslash, decide_false, Bool.or_self, Bool.false_eq_true,
      if_false]
    split_ifs with hFeed hReturn hTab hBackspace hForm hPrintable
    · exact .inl ⟨'n', by decide, by decide, hFeed ▸ rfl, rfl⟩
    · exact .inl ⟨'r', by decide, by decide, hReturn ▸ rfl, rfl⟩
    · exact .inl ⟨'t', by decide, by decide, hTab ▸ rfl, rfl⟩
    · exact .inl ⟨'b', by decide, by decide, hBackspace ▸ rfl, rfl⟩
    · exact .inl ⟨'f', by decide, by decide, hForm ▸ rfl, rfl⟩
    · simp only [Bool.and_eq_true, decide_eq_true_eq] at hPrintable
      exact .inr (.inl ⟨hPrintable.1, by omega, hQuote, hBackslash, rfl⟩)
    · exact .inr (.inr rfl)

/-- Every printed character is read back, whatever follows. -/
theorem readStringOnto_stringChar (done rest : List Char) (c : Char) :
    readStringOnto done (stringChar c ++ rest) = readStringOnto (c :: done) rest := by
  rcases stringChar_cases c with ⟨letter, hLetter, -, hShort, hForm⟩ |
    ⟨hPrintable, -, hQuote, hBackslash, hForm⟩ | hForm
  · rw [hForm]
    exact readStringOnto_short done rest hLetter hShort
  · rw [hForm]
    exact readStringOnto_plain done rest hPrintable hQuote hBackslash
  · rw [hForm]
    exact readStringOnto_codeEscapes done rest c

/-- The characters of a string are read one after the other, up to the closing quote. -/
theorem readStringOnto_flatMap (done text rest : List Char) :
    readStringOnto done (text.flatMap stringChar ++ '"' :: rest) =
      some (done.reverse ++ text, rest) := by
  induction text generalizing done with
  | nil =>
      rw [List.flatMap_nil, List.nil_append, readStringOnto, List.append_nil]
  | cons c text ih =>
      rw [List.flatMap_cons, List.append_assoc, readStringOnto_stringChar, ih]
      simp

/-- Every string is read back behind its opening quote, whatever follows. -/
theorem readString_print (text : String) (rest : List Char) :
    readString (text.toList.flatMap stringChar ++ '"' :: rest) = some (text, rest) := by
  rw [readString, readStringOnto_flatMap]
  simp

example : readString "\\u00e9\\\"\\ud83d\\ude00\": 1".toList = some ("é\"😀", ": 1".toList) := by
  decide +kernel

def IsAscii (text : List Char) : Prop := ∀ c ∈ text, c.toNat < 0x80

instance (text : List Char) : Decidable (IsAscii text) :=
  List.decidableBAll (fun c : Char => c.toNat < 0x80) text

@[simp] theorem isAscii_nil : IsAscii [] := by simp [IsAscii]

@[simp] theorem isAscii_cons {c : Char} {text : List Char} :
    IsAscii (c :: text) ↔ c.toNat < 0x80 ∧ IsAscii text := by
  simp [IsAscii]

@[simp] theorem isAscii_append {front rest : List Char} :
    IsAscii (front ++ rest) ↔ IsAscii front ∧ IsAscii rest := by
  simp [IsAscii, or_imp, forall_and]

theorem isAscii_hexDigits (width value : Nat) : IsAscii (hexDigits width value) := by
  have hAll : ∀ value < 16, (hexDigit value).toNat < 0x80 := by decide
  induction width with
  | zero => exact isAscii_nil
  | succ width ih => exact isAscii_cons.2 ⟨hAll _ (Nat.mod_lt _ (by decide)), ih⟩

theorem isAscii_unitEscape (unit : Nat) : IsAscii (unitEscape unit) := by
  simp [unitEscape, isAscii_hexDigits]

/-- Whatever a character is, it is printed in ASCII. -/
theorem isAscii_stringChar (c : Char) : IsAscii (stringChar c) := by
  rcases stringChar_cases c with ⟨letter, -, hAscii, -, hForm⟩ | ⟨-, hAscii, -, -, hForm⟩ | hForm
  · simp [hForm, hAscii]
  · simp [hForm, hAscii]
  · rw [hForm, codeEscapes]
    split <;> simp [isAscii_unitEscape]

/-- A string is printed in ASCII, whatever it holds. -/
theorem isAscii_flatMap (text : String) :
    IsAscii (text.toList.flatMap stringChar) := fun c hMem => by
  obtain ⟨d, -, hMem⟩ := List.mem_flatMap.1 hMem
  exact isAscii_stringChar d c hMem

end AccessibleMarkup.Json
