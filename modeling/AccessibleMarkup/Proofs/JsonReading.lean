import AccessibleMarkup.Proofs.JsonNumbers

/-! Printing a JSON value and reading it back. The printer puts a value in front of any text; the
reader takes exactly this value off and leaves exactly this text. -/
namespace AccessibleMarkup.Json

open AccessibleMarkup.Markup
open AccessibleMarkup.Text

theorem isLayout_of_isDigit {d : Char} (hDigit : d.isDigit = true) : isLayout d = false := by
  have hOther : ∀ c, c.isDigit = false → d ≠ c := fun _ => ne_of_isDigit hDigit
  simp [isLayout, hOther ' ' (by decide), hOther '\n' (by decide), hOther '\r' (by decide),
    hOther '\t' (by decide)]

section
variable {text other rest : List Char}

theorem skipLayout_solid {c : Char} (hSolid : isLayout c = false) :
    skipLayout (c :: rest) = c :: rest := by
  simp [skipLayout, hSolid]

theorem skipLayout_blank (text : List Char) : skipLayout (' ' :: text) = skipLayout text := rfl

/-- White space between the lines is skipped. -/
theorem skipLayout_newLine (depth : Nat) (text : List Char) :
    skipLayout (newLine depth text) = skipLayout text := by
  have hBlank : ∀ c ∈ List.replicate (2 * depth) ' ', isLayout c = true := fun c hMem => by
    rw [(List.mem_replicate.1 hMem).2]
    rfl
  exact List.dropWhile_append_of_pos hBlank

/-- White space in front of a value does not matter. -/
theorem readValue_congr (hSkip : skipLayout text = skipLayout other) (fuel : Nat) :
    readValue fuel text = readValue fuel other := by
  cases fuel with
  | zero => simp only [readValue]
  | succ fuel => simp only [readValue, hSkip]

theorem readMember_congr (hSkip : skipLayout text = skipLayout other) (fuel : Nat) :
    readMember fuel text = readMember fuel other := by
  cases fuel with
  | zero => simp only [readMember]
  | succ fuel => simp only [readMember, hSkip]

/-- White space at the front of the text does not matter to how items are read. -/
theorem readItems_congr (hSkip : skipLayout text = skipLayout other) (fuel : Nat) :
    readItems fuel text = readItems fuel other := by
  cases fuel with
  | zero => simp only [readItems]
  | succ fuel => simp only [readItems, hSkip]

theorem readMembers_congr (hSkip : skipLayout text = skipLayout other) (fuel : Nat) :
    readMembers fuel text = readMembers fuel other := by
  cases fuel with
  | zero => simp only [readMembers]
  | succ fuel => simp only [readMembers, hSkip]

end

/-- A value that begins with a digit is a number. -/
theorem readValue_digit {d : Char} (hDigit : d.isDigit = true) (fuel : Nat) (rest : List Char) :
    readValue (fuel + 1) (d :: rest) = readMagnitude? false (d :: rest) := by
  have hOther : ∀ c, c.isDigit = false → d ≠ c := fun _ => ne_of_isDigit hDigit
  rw [readValue]
  simp only [skipLayout_solid (isLayout_of_isDigit hDigit)]
  split
  · rename_i hNil
    cases hNil
  · rename_i hQuote
    exact absurd (List.cons.inj hQuote).1 (hOther _ (by decide))
  · rename_i hBracket
    exact absurd (List.cons.inj hBracket).1 (hOther _ (by decide))
  · rename_i hBrace
    exact absurd (List.cons.inj hBrace).1 (hOther _ (by decide))
  · rename_i hMinus
    exact absurd (List.cons.inj hMinus).1 (hOther _ (by decide))
  · rename_i hCons
    obtain ⟨rfl, rfl⟩ := List.cons.inj hCons
    rw [if_neg (hOther 'n' (by decide)), if_neg (hOther 't' (by decide)),
      if_neg (hOther 'f' (by decide))]

theorem readValue_minus (fuel : Nat) (rest : List Char) :
    readValue (fuel + 1) ('-' :: rest) = readMagnitude? true rest := by
  rw [readValue]
  rfl

/-- A whole number comes back from how it is printed. -/
theorem readValue_number (value : Int) (fuel : Nat) {rest : List Char}
    (hRest : Stops continuesNumber rest) :
    readValue (fuel + 1) ((toString value).toList ++ rest) = some (.number value, rest) := by
  cases value with
  | ofNat value =>
      have hRead := readMagnitude?_whole false value hRest
      obtain ⟨d, digits, hDigits, hDigit, -⟩ := exists_readDigits value (stops_nil _)
      rw [toList_toString_ofNat, hDigits, List.cons_append, readValue_digit hDigit]
      rw [hDigits, List.cons_append] at hRead
      exact hRead
  | negSucc value =>
      rw [toList_toString_negSucc, List.cons_append, readValue_minus,
        readMagnitude?_whole true (value + 1) hRest]
      rfl

/-- A decimal number comes back from how it is printed. -/
theorem readValue_decimal (negative : Bool) (significand : Nat) (exponent : Int) (fuel : Nat)
    {rest : List Char} (hRest : Stops continuesNumber rest) :
    readValue (fuel + 1) (printDecimal negative significand exponent ++ rest) =
      some (.decimal negative significand exponent, rest) := by
  have hRead := readMagnitude?_decimal negative significand exponent hRest
  have hText : printDecimal negative significand exponent ++ rest =
      (if negative then ['-'] else []) ++
        (Nat.toDigits 10 significand ++ 'e' :: ((toString exponent).toList ++ rest)) := by
    simp [printDecimal]
  rw [hText]
  cases negative with
  | true => exact (readValue_minus fuel _).trans hRead
  | false =>
      obtain ⟨d, digits, hDigits, hDigit, -⟩ := exists_readDigits significand (stops_nil _)
      rw [hDigits] at hRead ⊢
      exact (readValue_digit hDigit fuel _).trans hRead

/-- What begins a printed value: no white space, and not the end of an array or an object. -/
def BeginsValue (text : List Char) : Prop :=
  ∃ c rest, text = c :: rest ∧ isLayout c = false ∧ c ≠ ']' ∧ c ≠ '\x7d'

theorem beginsValue_toDigits (value : Nat) (rest : List Char) :
    BeginsValue (Nat.toDigits 10 value ++ rest) := by
  obtain ⟨d, digits, hDigits, hDigit, -⟩ := exists_readDigits value (stops_nil _)
  exact ⟨d, digits ++ rest, by rw [hDigits, List.cons_append], isLayout_of_isDigit hDigit,
    ne_of_isDigit hDigit (by decide), ne_of_isDigit hDigit (by decide)⟩

/-- Whatever is printed begins as a value does, so that an array or an object is never taken to be
empty. -/
theorem beginsValue_printValue (depth : Nat) (value : Value) (rest : List Char) :
    BeginsValue (printValue depth value rest) := by
  have hHead : ∀ c tail, isLayout c = false → c ≠ ']' → c ≠ '\x7d' →
      BeginsValue (c :: tail) := fun c tail hSolid hBracket hBrace =>
    ⟨c, tail, rfl, hSolid, hBracket, hBrace⟩
  cases value with
  | null => exact hHead 'n' _ (by decide) (by decide) (by decide)
  | bool value =>
      cases value with
      | false => exact hHead 'f' _ (by decide) (by decide) (by decide)
      | true => exact hHead 't' _ (by decide) (by decide) (by decide)
  | number value =>
      show BeginsValue ((toString value).toList ++ rest)
      cases value with
      | ofNat value =>
          rw [toList_toString_ofNat]
          exact beginsValue_toDigits value rest
      | negSucc value =>
          rw [toList_toString_negSucc]
          exact hHead '-' _ (by decide) (by decide) (by decide)
  | decimal negative significand exponent =>
      show BeginsValue (printDecimal negative significand exponent ++ rest)
      rw [printDecimal, Nat.toString_eq_repr, Nat.toList_repr]
      cases negative with
      | true => exact hHead '-' _ (by decide) (by decide) (by decide)
      | false =>
          rw [List.append_assoc, List.append_assoc]
          exact beginsValue_toDigits significand _
  | string text => exact hHead '"' _ (by decide) (by decide) (by decide)
  | array items =>
      cases items with
      | nil => exact hHead '[' _ (by decide) (by decide) (by decide)
      | cons item items => exact hHead '[' _ (by decide) (by decide) (by decide)
  | object members =>
      rcases members with - | ⟨⟨name, value⟩, members⟩
      · exact hHead '\x7b' _ (by decide) (by decide) (by decide)
      · exact hHead '\x7b' _ (by decide) (by decide) (by decide)

/-- The text is `rest` behind characters of ASCII. -/
def AsciiBefore (rest text : List Char) : Prop :=
  ∃ front, text = front ++ rest ∧ IsAscii front

namespace AsciiBefore
variable {rest text : List Char}

theorem refl (text : List Char) : AsciiBefore text text :=
  ⟨[], rfl, isAscii_nil⟩

theorem append {front : List Char} (hAscii : IsAscii front) (hBefore : AsciiBefore rest text) :
    AsciiBefore rest (front ++ text) := by
  obtain ⟨more, rfl, hMore⟩ := hBefore
  exact ⟨front ++ more, (List.append_assoc ..).symm, isAscii_append.2 ⟨hAscii, hMore⟩⟩

theorem cons {c : Char} (hAscii : c.toNat < 0x80) (hBefore : AsciiBefore rest text) :
    AsciiBefore rest (c :: text) := by
  obtain ⟨front, rfl, hFront⟩ := hBefore
  exact ⟨c :: front, rfl, isAscii_cons.2 ⟨hAscii, hFront⟩⟩

theorem newLine (depth : Nat) (hBefore : AsciiBefore rest text) :
    AsciiBefore rest (newLine depth text) :=
  cons (by decide) (append (fun c hMem => by
    rw [(List.mem_replicate.1 hMem).2]
    decide) hBefore)

theorem printString (name : String) (hBefore : AsciiBefore rest text) :
    AsciiBefore rest (printString name text) :=
  cons (by decide) (append (isAscii_flatMap name) (cons (by decide) hBefore))

theorem trans {behind : List Char} (hBehind : AsciiBefore behind rest)
    (hBefore : AsciiBefore rest text) : AsciiBefore behind text := by
  obtain ⟨front, rfl, hFront⟩ := hBefore
  exact append hFront hBehind

theorem length_le (hBefore : AsciiBefore rest text) : rest.length ≤ text.length := by
  obtain ⟨front, rfl, -⟩ := hBefore
  simp

end AsciiBefore

mutual

/-- A value is printed in ASCII. -/
theorem asciiBefore_printValue (depth : Nat) :
    ∀ (value : Value) (rest : List Char), AsciiBefore rest (printValue depth value rest)
  | .null, rest => .append (by decide) (.refl rest)
  | .bool true, rest => .append (by decide) (.refl rest)
  | .bool false, rest => .append (by decide) (.refl rest)
  | .number value, rest => .append (isAscii_toString value) (.refl rest)
  | .decimal negative significand exponent, rest =>
    .append (isAscii_printDecimal negative significand exponent) (.refl rest)
  | .string text, rest => .printString text (.refl rest)
  | .array [], rest => .cons (by decide) (.cons (by decide) (.refl rest))
  | .array (item :: items), rest => by
    have hEnd : AsciiBefore rest (newLine depth (']' :: rest)) :=
      .newLine depth (.cons (by decide) (.refl rest))
    have hItems := hEnd.trans (asciiBefore_printItems (depth + 1) items _)
    exact .cons (by decide) (.newLine _ (hItems.trans (asciiBefore_printValue (depth + 1) item _)))
  | .object [], rest => .cons (by decide) (.cons (by decide) (.refl rest))
  | .object ((name, value) :: members), rest => by
    have hEnd : AsciiBefore rest (newLine depth ('\x7d' :: rest)) :=
      .newLine depth (.cons (by decide) (.refl rest))
    have hMembers := hEnd.trans (asciiBefore_printMembers (depth + 1) members _)
    have hValue := hMembers.trans (asciiBefore_printValue (depth + 1) value _)
    exact .cons (by decide) (.newLine _ (.printString name
      (.cons (by decide) (.cons (by decide) hValue))))

/-- The items behind the first one are printed in ASCII. -/
theorem asciiBefore_printItems (depth : Nat) :
    ∀ (items : List Value) (rest : List Char), AsciiBefore rest (printItems depth items rest)
  | [], rest => .refl rest
  | item :: items, rest => by
    have hItems := asciiBefore_printItems depth items rest
    exact .cons (by decide) (.newLine depth (hItems.trans (asciiBefore_printValue depth item _)))

/-- The members behind the first one are printed in ASCII. -/
theorem asciiBefore_printMembers (depth : Nat) :
    ∀ (members : List (String × Value)) (rest : List Char),
      AsciiBefore rest (printMembers depth members rest)
  | [], rest => .refl rest
  | (name, value) :: members, rest => by
    have hMembers := asciiBefore_printMembers depth members rest
    have hValue := hMembers.trans (asciiBefore_printValue depth value _)
    exact .cons (by decide) (.newLine _ (.printString name
      (.cons (by decide) (.cons (by decide) hValue))))

end

section
variable {fuel : Nat} {item value : Value} {items : List Value} {members : List (String × Value)}
  {name : String} {text behind rest : List Char}

/-- An array is read by its first item and the items behind it. -/
theorem readValue_array (depth : Nat) (hBegins : BeginsValue text)
    (hItem : readValue fuel text = some (item, behind))
    (hItems : readItems fuel behind = some (items, rest)) :
    readValue (fuel + 1) ('[' :: newLine depth text) = some (.array (item :: items), rest) := by
  obtain ⟨c, tail, rfl, hSolid, hBracket, -⟩ := hBegins
  rw [readValue]
  simp only [skipLayout_solid (show isLayout '[' = false from rfl), skipLayout_newLine,
    skipLayout_solid hSolid]
  split
  · rename_i hEnd
    exact absurd (List.cons.inj hEnd).1 hBracket
  · simp [hItem, hItems]

/-- An object is read by its first member and the members behind it. -/
theorem readValue_object (depth : Nat)
    (hMember : readMember fuel (printString name text) = some ((name, value), behind))
    (hMembers : readMembers fuel behind = some (members, rest)) :
    readValue (fuel + 1) ('\x7b' :: newLine depth (printString name text)) =
      some (.object ((name, value) :: members), rest) := by
  rw [readValue]
  rw [printString] at hMember ⊢
  simp only [skipLayout_solid (show isLayout '\x7b' = false from rfl), skipLayout_newLine,
    skipLayout_solid (show isLayout '"' = false from rfl)]
  simp [hMember, hMembers]

/-- The items are read one after the other, each with one unit of fuel. -/
theorem readItems_more (depth : Nat) (hItem : readValue fuel text = some (item, behind))
    (hItems : readItems fuel behind = some (items, rest)) :
    readItems (fuel + 1) (',' :: newLine depth text) = some (item :: items, rest) := by
  rw [readItems]
  simp only [skipLayout_solid (show isLayout ',' = false from rfl)]
  rw [readValue_congr (skipLayout_newLine depth text), hItem]
  simp [hItems]

theorem readItems_end (depth : Nat) :
    readItems (fuel + 1) (newLine depth (']' :: rest)) = some ([], rest) := by
  rw [readItems_congr (skipLayout_newLine depth (']' :: rest)), readItems]
  simp only [skipLayout_solid (show isLayout ']' = false from rfl)]

/-- A member comes back from how it is printed if its value does. -/
theorem readMember_print (hValue : readValue fuel text = some (value, behind)) :
    readMember (fuel + 1) (printString name (':' :: ' ' :: text)) =
      some ((name, value), behind) := by
  rw [readMember]
  simp only [printString, skipLayout_solid (show isLayout '"' = false from rfl),
    readString_print, Option.bind_eq_bind, Option.bind_some]
  simp only [skipLayout_solid (show isLayout ':' = false from rfl)]
  rw [readValue_congr (skipLayout_blank text), hValue]
  simp

/-- The members are read one after the other, each with one unit of fuel. -/
theorem readMembers_more (depth : Nat)
    (hMember : readMember fuel text = some ((name, value), behind))
    (hMembers : readMembers fuel behind = some (members, rest)) :
    readMembers (fuel + 1) (',' :: newLine depth text) = some ((name, value) :: members, rest) := by
  rw [readMembers]
  simp only [skipLayout_solid (show isLayout ',' = false from rfl)]
  rw [readMember_congr (skipLayout_newLine depth text), hMember]
  simp [hMembers]

theorem readMembers_end (depth : Nat) :
    readMembers (fuel + 1) (newLine depth ('\x7d' :: rest)) = some ([], rest) := by
  rw [readMembers_congr (skipLayout_newLine depth ('\x7d' :: rest)), readMembers]
  simp only [skipLayout_solid (show isLayout '\x7d' = false from rfl)]

end

theorem length_newLine (depth : Nat) (text : List Char) :
    text.length < (newLine depth text).length := by
  simp only [newLine, List.length_cons, List.length_append]
  omega

/-- A member takes more characters than the two that its readers count. -/
theorem length_printMember (depth : Nat) (name : String) (text : List Char) :
    text.length + 2 < (newLine depth (printString name (':' :: ' ' :: text))).length := by
  simp only [newLine, printString, List.length_cons, List.length_append]
  omega

theorem stops_printItems (depth : Nat) (items : List Value) {rest : List Char}
    (hRest : Stops continuesNumber rest) : Stops continuesNumber (printItems depth items rest) := by
  cases items with
  | nil => exact hRest
  | cons item items => exact rfl

theorem stops_printMembers (depth : Nat) (members : List (String × Value)) {rest : List Char}
    (hRest : Stops continuesNumber rest) :
    Stops continuesNumber (printMembers depth members rest) := by
  cases members with
  | nil => exact hRest
  | cons member members => exact rfl

mutual

/-- A printed value is read back where the fuel lasts for the text, whatever follows that is not
read as a part of a number. -/
theorem readValue_print (depth : Nat) : ∀ (value : Value) {rest : List Char} {fuel : Nat},
    (printValue depth value rest).length < fuel → Stops continuesNumber rest →
      readValue fuel (printValue depth value rest) = some (value, rest)
  | _, _, 0, hFuel, _ => absurd hFuel (Nat.not_lt_zero _)
  | .null, rest, fuel + 1, _, _ => rfl
  | .bool true, rest, fuel + 1, _, _ => rfl
  | .bool false, rest, fuel + 1, _, _ => rfl
  | .number value, rest, fuel + 1, _, hRest => readValue_number value fuel hRest
  | .decimal negative significand exponent, rest, fuel + 1, _, hRest =>
    readValue_decimal negative significand exponent fuel hRest
  | .string text, rest, fuel + 1, _, _ => by
    show readValue (fuel + 1) (printString text rest) = some (.string text, rest)
    rw [printString, readValue]
    simp [skipLayout_solid (show isLayout '"' = false from rfl), readString_print]
  | .array [], rest, fuel + 1, _, _ => rfl
  | .array (item :: items), rest, fuel + 1, hFuel, _ => by
    have hEnd : Stops continuesNumber (newLine depth (']' :: rest)) := rfl
    have hItems := (asciiBefore_printValue (depth + 1) item
      (printItems (depth + 1) items (newLine depth (']' :: rest)))).length_le
    have hLine := length_newLine (depth + 1) (printValue (depth + 1) item
      (printItems (depth + 1) items (newLine depth (']' :: rest))))
    have hShorter := Nat.lt_of_succ_lt_succ hFuel
    exact readValue_array (depth + 1) (beginsValue_printValue ..)
      (readValue_print (depth + 1) item (by omega) (stops_printItems _ items hEnd))
      (readItems_print (depth + 1) items depth (by omega))
  | .object [], rest, fuel + 1, _, _ => rfl
  | .object ((name, value) :: members), rest, fuel + 1, hFuel, _ => by
    have hEnd : Stops continuesNumber (newLine depth ('\x7d' :: rest)) := rfl
    have hMembers := (asciiBefore_printValue (depth + 1) value
      (printMembers (depth + 1) members (newLine depth ('\x7d' :: rest)))).length_le
    have hShorter := Nat.lt_of_succ_lt_succ hFuel
    have hMember := length_printMember (depth + 1) name (printValue (depth + 1) value
      (printMembers (depth + 1) members (newLine depth ('\x7d' :: rest))))
    obtain ⟨less, rfl⟩ : ∃ less, fuel = less + 1 := ⟨fuel - 1, by omega⟩
    exact readValue_object (depth + 1)
      (readMember_print
        (readValue_print (depth + 1) value (by omega) (stops_printMembers _ members hEnd)))
      (readMembers_print (depth + 1) members depth (by omega))

/-- The items behind the first one come back from how they are printed. -/
theorem readItems_print (depth : Nat) : ∀ (items : List Value) (outer : Nat) {rest : List Char}
    {fuel : Nat}, (printItems depth items (newLine outer (']' :: rest))).length < fuel →
      readItems fuel (printItems depth items (newLine outer (']' :: rest))) = some (items, rest)
  | _, _, _, 0, hFuel => absurd hFuel (Nat.not_lt_zero _)
  | [], outer, rest, fuel + 1, _ => readItems_end outer
  | item :: items, outer, rest, fuel + 1, hFuel => by
    have hEnd : Stops continuesNumber (newLine outer (']' :: rest)) := rfl
    have hItems := (asciiBefore_printValue depth item
      (printItems depth items (newLine outer (']' :: rest)))).length_le
    have hLine := length_newLine depth (printValue depth item
      (printItems depth items (newLine outer (']' :: rest))))
    have hShorter := Nat.lt_of_succ_lt_succ hFuel
    exact readItems_more depth
      (readValue_print depth item (by omega) (stops_printItems _ items hEnd))
      (readItems_print depth items outer (by omega))

/-- The members behind the first one come back from how they are printed. -/
theorem readMembers_print (depth : Nat) : ∀ (members : List (String × Value)) (outer : Nat)
    {rest : List Char} {fuel : Nat},
    (printMembers depth members (newLine outer ('\x7d' :: rest))).length < fuel →
      readMembers fuel (printMembers depth members (newLine outer ('\x7d' :: rest))) =
        some (members, rest)
  | _, _, _, 0, hFuel => absurd hFuel (Nat.not_lt_zero _)
  | [], outer, rest, fuel + 1, _ => readMembers_end outer
  | (name, value) :: members, outer, rest, fuel + 1, hFuel => by
    have hEnd : Stops continuesNumber (newLine outer ('\x7d' :: rest)) := rfl
    have hMembers := (asciiBefore_printValue depth value
      (printMembers depth members (newLine outer ('\x7d' :: rest)))).length_le
    have hShorter := Nat.lt_of_succ_lt_succ hFuel
    have hMember := length_printMember depth name (printValue depth value
      (printMembers depth members (newLine outer ('\x7d' :: rest))))
    obtain ⟨less, rfl⟩ : ∃ less, fuel = less + 1 := ⟨fuel - 1, by omega⟩
    exact readMembers_more depth
      (readMember_print
        (readValue_print depth value (by omega) (stops_printMembers _ members hEnd)))
      (readMembers_print depth members outer (by omega))

end

/-- A JSON text that is printed is read as the value it was printed for. -/
theorem read?_print (value : Value) : read? value.print = some value := by
  have hFuel : (printValue 0 value []).length < 2 * (printValue 0 value []).length + 1 := by omega
  rw [read?, Value.print, readValue_print 0 value hFuel trivial]
  rfl

/-- Two values are told apart by how they are printed. -/
theorem print_injective : Function.Injective Value.print := fun value other hPrint => by
  have hRead := read?_print value
  rw [hPrint, read?_print] at hRead
  exact (Option.some.inj hRead).symm

/-- A JSON text that is printed is ASCII. -/
theorem isAscii_print (value : Value) : IsAscii value.print := by
  obtain ⟨front, hFront, hAscii⟩ := asciiBefore_printValue 0 value []
  rwa [Value.print, hFront, List.append_nil]

end AccessibleMarkup.Json
