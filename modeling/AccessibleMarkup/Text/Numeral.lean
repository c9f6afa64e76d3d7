import AccessibleMarkup.Text.Blank

/-! Whole numbers as they are written: in the decimal digits of any script, with an optional sign
and single underscores between digits. -/
namespace AccessibleMarkup.Text

/-- The zeros of the decimal digits (Unicode 14). The nine digits that follow each of them are its
other digits. -/
def zeroDigits : List Nat :=
  [0x30, 0x660, 0x6F0, 0x7C0, 0x966, 0x9E6, 0xA66, 0xAE6, 0xB66, 0xBE6, 0xC66, 0xCE6, 0xD66,
    0xDE6, 0xE50, 0xED0, 0xF20, 0x1040, 0x1090, 0x17E0, 0x1810, 0x1946, 0x19D0, 0x1A80, 0x1A90,
    0x1B50, 0x1BB0, 0x1C40, 0x1C50, 0xA620, 0xA8D0, 0xA900, 0xA9D0, 0xA9F0, 0xAA50, 0xABF0,
    0xFF10, 0x104A0, 0x10D30, 0x11066, 0x110F0, 0x11136, 0x111D0, 0x112F0, 0x11450, 0x114D0,
    0x11650, 0x116C0, 0x11730, 0x118E0, 0x11950, 0x11C50, 0x11D50, 0x11DA0, 0x16A60, 0x16AC0,
    0x16B50, 0x1D7CE, 0x1D7D8, 0x1D7E2, 0x1D7EC, 0x1D7F6, 0x1E140, 0x1E2F0, 0x1E950, 0x1FBF0]

def digitValue? (c : Char) : Option Nat :=
  if c.toNat < 0x80 then
    if c.isDigit then some (c.toNat - 0x30) else none
  else
    (zeroDigits.find? fun first => first ≤ c.toNat && c.toNat < first + 10).map (c.toNat - ·)

/-- The longest numeral, in digits, that is read as a number. -/
def maxNumeralDigits : Nat := 4300

/-- `digitValues?` behind the values already read, last first. The flag says that a digit stood
last. -/
def digitValuesOnto? (values : List Nat) (afterDigit : Bool) : List Char → Option (List Nat)
  | [] => if afterDigit then some values.reverse else none
  | c :: rest =>
    if c = '_' then if afterDigit then digitValuesOnto? values false rest else none
    else match digitValue? c with
      | some value => digitValuesOnto? (value :: values) true rest
      | none => none

/-- The values of one or more digits with at most a single underscore between two of them. -/
def digitValues? (text : List Char) : Option (List Nat) :=
  digitValuesOnto? [] false text

def ofDigitValues (values : List Nat) : Nat :=
  values.foldl (fun number value => 10 * number + value) 0

/-- White space that may stand around a numeral: all but the four information separators. -/
def surroundsNumeral (c : Char) : Bool :=
  isBlank c && !(0x1C ≤ c.toNat && c.toNat ≤ 0x1F)

/-- The whole number that a text writes. A text that holds anything else beside one numeral and
white space around it, or more digits than `maxNumeralDigits`, writes none. -/
def readInteger? (text : List Char) : Option Int := do
  let trimmed := ((text.dropWhile surroundsNumeral).reverse.dropWhile surroundsNumeral).reverse
  let (negative, digits) := match trimmed with
    | '-' :: rest => (true, rest)
    | '+' :: rest => (false, rest)
    | rest => (false, rest)
  let values ← digitValues? digits
  if maxNumeralDigits < values.length then none
  else
    let size := (ofDigitValues values : Int)
    pure (if negative then -size else size)

end AccessibleMarkup.Text
