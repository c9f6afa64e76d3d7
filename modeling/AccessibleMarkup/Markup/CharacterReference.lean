import AccessibleMarkup.Markup.CharacterReference.Names
import AccessibleMarkup.Text.Numeral
import AccessibleMarkup.Text.Span

/-!
Character references. An attribute value and running text decode them by different rules: a value
keeps every letter it cannot read and lets a name end early, running text drops the semicolon of
an unknown name.
-/
namespace AccessibleMarkup.Markup

open AccessibleMarkup.Text

def isHexDigit (c : Char) : Bool :=
  c.isDigit || ('a' ≤ c && c ≤ 'f') || ('A' ≤ c && c ≤ 'F')

/-- The number behind the number sign of a reference. -/
inductive Numeral where
  | decimal (digits : List Char)
  | hexadecimal (mark : Char) (digits : List Char)
  deriving DecidableEq

namespace Numeral

def source : Numeral → List Char
  | .decimal digits => digits
  | .hexadecimal mark digits => mark :: digits

def digitValue (c : Char) : Nat :=
  if c.isDigit then c.toNat - 0x30
  else if 'a' ≤ c then c.toNat - 0x57
  else c.toNat - 0x37

/-- The number that digits of the given base write. Above the last code point all numbers count
as one. -/
def valueIn (base : Nat) (digits : List Char) : Nat :=
  digits.foldl (fun value c => min (base * value + digitValue c) 0x110000) 0

/-- The code point that the numeral writes. -/
def code : Numeral → Nat
  | .decimal digits => valueIn 10 digits
  | .hexadecimal _ digits => valueIn 16 digits

/-- The number of digits, if they are decimal and more than are read as a number. -/
def overlong? : Numeral → Option Nat
  | .decimal digits => if maxNumeralDigits < digits.length then some digits.length else none
  | .hexadecimal _ _ => none

/-- The numeral at the front of a text, with at least one digit. -/
def read? : List Char → Option Numeral
  | [] => none
  | c :: rest =>
    if c = 'x' || c = 'X' then
      match (splitRun (fun c _ => isHexDigit c) rest).1 with
      | [] => none
      | digits => some (.hexadecimal c digits)
    else
      match (splitRun (fun c _ => c.isDigit) (c :: rest)).1 with
      | [] => none
      | digits => some (.decimal digits)

end Numeral

/-- The characters of the code points from 0x80 on in the Western code page that pages mean by
them. Five of the code points stand for themselves. -/
def westernCodes : List Nat :=
  [0x20AC, 0x81, 0x201A, 0x192, 0x201E, 0x2026, 0x2020, 0x2021, 0x2C6, 0x2030, 0x160, 0x2039,
    0x152, 0x8D, 0x17D, 0x8F, 0x90, 0x2018, 0x2019, 0x201C, 0x201D, 0x2022, 0x2013, 0x2014,
    0x2DC, 0x2122, 0x161, 0x203A, 0x153, 0x9D, 0x17E, 0x178]

/-- The code point meant by a numeric reference. Zero, surrogates and numbers above the last code
point mean the replacement character. -/
def meantCode (code : Nat) : Nat :=
  if code = 0 || (0xD800 ≤ code && code ≤ 0xDFFF) || 0x10FFFF < code then 0xFFFD
  else if 0x80 ≤ code then (westernCodes[code - 0x80]?).getD code
  else code

/-- A code point that a reference in an attribute value cannot write: controls and
noncharacters. -/
def isUnwritable (code : Nat) : Bool :=
  (0x1 ≤ code && code ≤ 0x8) || code = 0xB || (0xE ≤ code && code ≤ 0x1F) || code = 0x7F ||
    (0xFDD0 ≤ code && code ≤ 0xFDEF) || (code ≤ 0x10FFFF && 0xFFFE ≤ code % 0x10000)

/-- The character that a numeric reference in running text writes. -/
def Numeral.textCharacter (numeral : Numeral) : Char :=
  Char.ofNat (meantCode numeral.code)

/-- What a numeric reference in an attribute value writes. -/
def Numeral.valueCharacters (numeral : Numeral) : List Char :=
  if isUnwritable numeral.code then [] else [Char.ofNat (meantCode numeral.code)]

/-- What a named reference in running text writes. An unknown name stays, with its ampersand. -/
def namedText (name : List Char) : List Char :=
  (namedCharacters? name).getD ('&' :: name)

def isReferenceName (c : Char) : Bool :=
  !(c = '\t' || c = '\n' || c = '\x0C' || c = ' ' || c = '<' || c = '&' || c = '#' || c = ';')

/-- The longest front part of a name, of at least two characters and at most `length`, that is
known without a semicolon, decoded, and the rest of the name. -/
def decodeFront? (name : List Char) : Nat → Option (List Char)
  | 0 => none
  | length + 1 =>
    if length = 0 then none
    else match unterminated? (name.take (length + 1)) with
      | some characters => some (characters ++ name.drop (length + 1))
      | none => decodeFront? name length

/-- What a name writes in an attribute value. The flag says that a semicolon follows. -/
def namedValue (name : List Char) (terminated : Bool) : List Char :=
  let whole := if terminated then namedCharacters? name else unterminated? name
  let tail := if terminated then [';'] else []
  match whole with
  | some characters => characters
  | none =>
    match decodeFront? name (if terminated then name.length else name.length - 1) with
    | some characters => characters ++ tail
    | none => '&' :: name ++ tail

/-- A reference in an attribute value, without its ampersand. -/
inductive ValueReference where
  | numeric (numeral : Numeral)
  | named (name : List Char) (terminated : Bool)

namespace ValueReference

/-- The reference at the front of the text behind an ampersand. A semicolon behind a number
belongs to it but does not matter. -/
def read? (text : List Char) : Option ValueReference :=
  match text with
  | '#' :: rest => (Numeral.read? rest).map .numeric
  | _ =>
    match (splitRun (fun c _ => isReferenceName c) (text.take 32)).1 with
    | [] => none
    | name => some (.named name ((text.drop name.length).head? = some ';'))

def length (reference : ValueReference) (text : List Char) : Nat :=
  match reference with
  | .numeric numeral =>
    let read := 1 + numeral.source.length
    if (text.drop read).head? = some ';' then read + 1 else read
  | .named name terminated => if terminated then name.length + 1 else name.length

def decoded : ValueReference → List Char
  | .numeric numeral => numeral.valueCharacters
  | .named name terminated => namedValue name terminated

/-- The number of digits of a numeric reference that has too many of them. -/
def overlong? : ValueReference → Option Nat
  | .numeric numeral => numeral.overlong?
  | .named _ _ => none

end ValueReference

/-- `decodeValue` behind the part already done, which stands in reverse. -/
def decodeValueOnto (done : List Char) : List Char → List Char
  | [] => done.reverse
  | '&' :: rest =>
    match ValueReference.read? rest with
    | some reference =>
      decodeValueOnto (reference.decoded.reverse ++ done) (rest.drop (reference.length rest))
    | none => decodeValueOnto ('&' :: done) rest
  | c :: rest => decodeValueOnto (c :: done) rest
termination_by text => text.length
decreasing_by all_goals simp only [List.length_cons, List.length_drop]; omega

/-- An attribute value with its character references decoded. -/
def decodeValue (text : List Char) : List Char :=
  decodeValueOnto [] text

/-- The number of digits of the first reference in an attribute value that has too many of
them. -/
def overlongReference? : List Char → Option Nat
  | [] => none
  | '&' :: rest =>
    match ValueReference.read? rest with
    | some reference =>
      match reference.overlong? with
      | some digits => some digits
      | none => overlongReference? (rest.drop (reference.length rest))
    | none => overlongReference? rest
  | _ :: rest => overlongReference? rest
termination_by text => text.length
decreasing_by all_goals simp only [List.length_cons, List.length_drop]; omega

end AccessibleMarkup.Markup
