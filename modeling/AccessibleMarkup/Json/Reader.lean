import AccessibleMarkup.Json.Value
import AccessibleMarkup.Text.Span

/-!
Reading JSON. The reader accepts every text of the format, in any layout. An escape of one half of
a surrogate pair without the other half reads as the replacement character.
-/
namespace AccessibleMarkup.Json

open AccessibleMarkup.Text

/-- White space between the parts of a JSON text. -/
def isLayout (c : Char) : Bool :=
  c = ' ' || c = '\n' || c = '\r' || c = '\t'

def skipLayout (text : List Char) : List Char :=
  text.dropWhile isLayout

def hexValue? (c : Char) : Option Nat :=
  if '0' ≤ c && c ≤ '9' then some (c.toNat - 0x30)
  else if 'a' ≤ c && c ≤ 'f' then some (c.toNat - 0x57)
  else if 'A' ≤ c && c ≤ 'F' then some (c.toNat - 0x37)
  else none

/-- The UTF-16 code unit that four hexadecimal digits write. -/
def unitValue? (a b c d : Char) : Option Nat := do
  let a ← hexValue? a
  let b ← hexValue? b
  let c ← hexValue? c
  let d ← hexValue? d
  pure (((a * 16 + b) * 16 + c) * 16 + d)

def isHighUnit (unit : Nat) : Bool := 0xD800 ≤ unit && unit < 0xDC00

def isLowUnit (unit : Nat) : Bool := 0xDC00 ≤ unit && unit < 0xE000

def loneUnit (unit : Nat) : Char :=
  if isHighUnit unit || isLowUnit unit then '\uFFFD' else Char.ofNat unit

def pairedUnits (high low : Nat) : Char :=
  Char.ofNat (0x10000 + (high - 0xD800) * 0x400 + (low - 0xDC00))

/-- The code unit that an escape at the front of the text writes. -/
def unitEscape? : List Char → Option Nat
  | '\\' :: 'u' :: a :: b :: c :: d :: _ => unitValue? a b c d
  | _ => none

/-- The character of an escape of one letter. -/
def shortEscape? (c : Char) : Option Char :=
  if c = '"' || c = '\\' || c = '/' then some c
  else if c = 'n' then some '\n'
  else if c = 'r' then some '\r'
  else if c = 't' then some '\t'
  else if c = 'b' then some '\x08'
  else if c = 'f' then some '\x0C'
  else none

/-- The rest of a string and what follows its closing quote, behind the part already read, which
stands in reverse. -/
def readStringOnto (done : List Char) : List Char → Option (List Char × List Char)
  | [] => none
  | '"' :: rest => some (done.reverse, rest)
  | '\\' :: 'u' :: a :: b :: c :: d :: rest =>
    match unitValue? a b c d with
    | none => none
    | some high =>
      match if isHighUnit high then (unitEscape? rest).filter isLowUnit else none with
      | some low => readStringOnto (pairedUnits high low :: done) (rest.drop 6)
      | none => readStringOnto (loneUnit high :: done) rest
  | '\\' :: c :: rest =>
    match shortEscape? c with
    | some escaped => readStringOnto (escaped :: done) rest
    | none => none
  | c :: rest => if c.toNat < 0x20 || c = '\\' then none else readStringOnto (c :: done) rest
termination_by text => text.length
decreasing_by all_goals simp only [List.length_cons, List.length_drop]; omega

/-- The text of a string and what follows it. The opening quote is already read. -/
def readString (text : List Char) : Option (String × List Char) :=
  (readStringOnto [] text).map fun read => (String.ofList read.1, read.2)

def digitsValue (digits : List Char) : Nat :=
  digits.foldl (fun value c => 10 * value + (c.toNat - 0x30)) 0

def readDigits (text : List Char) : List Char × List Char :=
  splitRun (fun c _ => c.isDigit) text

/-- The digits of a fraction, none if there is no point. -/
def readFraction? : List Char → Option (List Char × List Char)
  | '.' :: rest =>
    match readDigits rest with
    | ([], _) => none
    | (digits, rest) => some (digits, rest)
  | rest => some ([], rest)

/-- The exponent, `none` inside if there is none. -/
def readExponent? (text : List Char) : Option (Option Int × List Char) :=
  match text with
  | [] => some (none, [])
  | c :: rest =>
    if c = 'e' || c = 'E' then
      let (negative, rest) := match rest with
        | '-' :: rest => (true, rest)
        | '+' :: rest => (false, rest)
        | rest => (false, rest)
      match readDigits rest with
      | ([], _) => none
      | (digits, rest) =>
        let size := (digitsValue digits : Int)
        some (some (if negative then -size else size), rest)
    else some (none, text)

/-- A number without its sign. A leading zero stands alone. -/
def readMagnitude? (negative : Bool) (text : List Char) : Option (Value × List Char) :=
  match readDigits text with
  | ([], _) => none
  | (whole, rest) =>
    if whole.head? = some '0' ∧ whole.length ≠ 1 then none
    else do
      let (fraction, rest) ← readFraction? rest
      let (exponent, rest) ← readExponent? rest
      let size := digitsValue (whole ++ fraction)
      if fraction.isEmpty && exponent.isNone then
        pure (.number (if negative then -(size : Int) else size), rest)
      else pure (.decimal negative size (exponent.getD 0 - fraction.length), rest)

/-- What follows a word that has to stand at the front of the text. -/
def expect? (word text : List Char) : Option (List Char) :=
  if word.isPrefixOf text then some (text.drop word.length) else none

mutual

/-- A value at the front of the text and what follows it. Every step uses up fuel, and no text
needs more than twice its length. -/
def readValue : Nat → List Char → Option (Value × List Char)
  | 0, _ => none
  | fuel + 1, text =>
    match skipLayout text with
    | [] => none
    | '"' :: rest => (readString rest).map fun read => (.string read.1, read.2)
    | '[' :: rest =>
      match skipLayout rest with
      | ']' :: rest => some (.array [], rest)
      | rest => do
        let (item, rest) ← readValue fuel rest
        let (items, rest) ← readItems fuel rest
        pure (.array (item :: items), rest)
    | '\x7b' :: rest =>
      match skipLayout rest with
      | '\x7d' :: rest => some (.object [], rest)
      | rest => do
        let (member, rest) ← readMember fuel rest
        let (members, rest) ← readMembers fuel rest
        pure (.object (member :: members), rest)
    | '-' :: rest => readMagnitude? true rest
    | c :: rest =>
      if c = 'n' then (expect? "ull".toList rest).map fun rest => (.null, rest)
      else if c = 't' then (expect? "rue".toList rest).map fun rest => (.bool true, rest)
      else if c = 'f' then (expect? "alse".toList rest).map fun rest => (.bool false, rest)
      else readMagnitude? false (c :: rest)

def readItems : Nat → List Char → Option (List Value × List Char)
  | 0, _ => none
  | fuel + 1, text =>
    match skipLayout text with
    | ']' :: rest => some ([], rest)
    | ',' :: rest => do
      let (item, rest) ← readValue fuel rest
      let (items, rest) ← readItems fuel rest
      pure (item :: items, rest)
    | _ => none

def readMember : Nat → List Char → Option ((String × Value) × List Char)
  | 0, _ => none
  | fuel + 1, text =>
    match skipLayout text with
    | '"' :: rest => do
      let (name, rest) ← readString rest
      match skipLayout rest with
      | ':' :: rest => do
        let (value, rest) ← readValue fuel rest
        pure ((name, value), rest)
      | _ => none
    | _ => none

def readMembers : Nat → List Char → Option (List (String × Value) × List Char)
  | 0, _ => none
  | fuel + 1, text =>
    match skipLayout text with
    | '\x7d' :: rest => some ([], rest)
    | ',' :: rest => do
      let (member, rest) ← readMember fuel rest
      let (members, rest) ← readMembers fuel rest
      pure (member :: members, rest)
    | _ => none

end

/-- The value that a text writes, if it writes one and nothing else. -/
def read? (text : List Char) : Option Value :=
  match readValue (2 * text.length + 1) text with
  | some (value, rest) => if (skipLayout rest).isEmpty then some value else none
  | none => none

end AccessibleMarkup.Json
