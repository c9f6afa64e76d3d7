import AccessibleMarkup.Text.Printable

/-!
A text in quotes, for messages. The quotes are single unless the text holds a single quote and no
double one; the quote in use, the backslash and every character that is not printable are escaped.
-/
namespace AccessibleMarkup.Text

def hexDigit (value : Nat) : Char :=
  if value < 10 then Char.ofNat (0x30 + value) else Char.ofNat (0x57 + value)

/-- A number in exactly `width` hexadecimal digits; higher digits are cut. -/
def hexDigits : Nat → Nat → List Char
  | 0, _ => []
  | width + 1, value => hexDigit (value / 16 ^ width % 16) :: hexDigits width value

/-- The escape of a character that is not printable, in the shortest form its code point fits. -/
def codeEscape (code : Nat) : List Char :=
  if code < 0x100 then '\\' :: 'x' :: hexDigits 2 code
  else if code < 0x10000 then '\\' :: 'u' :: hexDigits 4 code
  else '\\' :: 'U' :: hexDigits 8 code

/-- A character as it stands between the given quotes. -/
def quotedChar (quote : Char) (c : Char) : List Char :=
  if c = quote || c = '\\' then ['\\', c]
  else if c = '\t' then ['\\', 't']
  else if c = '\n' then ['\\', 'n']
  else if c = '\r' then ['\\', 'r']
  else if isPrintable c then [c]
  else codeEscape c.toNat

/-- The quote for a text: single, unless that would need an escape and a double one would not. -/
def quoteFor (text : List Char) : Char :=
  if text.contains '\x27' && !text.contains '"' then '"' else '\x27'

def quoted (text : List Char) : List Char :=
  let quote := quoteFor text
  quote :: text.flatMap (quotedChar quote) ++ [quote]

end AccessibleMarkup.Text
