import AccessibleMarkup.Json.Value
import AccessibleMarkup.Text.Quoted

/-!
JSON as text, in ASCII alone: each item and member on a line of its own, two more blanks of
indentation in each array and object, and an escape for every character that is not a printable
one of ASCII.
-/
namespace AccessibleMarkup.Json

open AccessibleMarkup.Text

def unitEscape (unit : Nat) : List Char :=
  '\\' :: 'u' :: hexDigits 4 unit

/-- A code point as escapes of its one or two UTF-16 code units. -/
def codeEscapes (code : Nat) : List Char :=
  if code < 0x10000 then unitEscape code
  else
    unitEscape (0xD800 + (code - 0x10000) / 0x400) ++
      unitEscape (0xDC00 + (code - 0x10000) % 0x400)

/-- A character as it stands between the quotes of a JSON string. -/
def stringChar (c : Char) : List Char :=
  if c = '"' || c = '\\' then ['\\', c]
  else if c = '\n' then ['\\', 'n']
  else if c = '\r' then ['\\', 'r']
  else if c = '\t' then ['\\', 't']
  else if c = '\x08' then ['\\', 'b']
  else if c = '\x0C' then ['\\', 'f']
  else if 0x20 ≤ c.toNat && c.toNat < 0x7F then [c]
  else codeEscapes c.toNat

def printString (text : String) (rest : List Char) : List Char :=
  '"' :: (text.toList.flatMap stringChar ++ '"' :: rest)

/-- A line end and the indentation of the next line in front of more text. -/
def newLine (depth : Nat) (rest : List Char) : List Char :=
  '\n' :: (List.replicate (2 * depth) ' ' ++ rest)

def printDecimal (negative : Bool) (significand : Nat) (exponent : Int) : List Char :=
  (if negative then ['-'] else []) ++ (toString significand).toList ++
    'e' :: (toString exponent).toList

mutual

/-- A value as text inside `depth` arrays and objects, in front of more text. -/
def printValue (depth : Nat) (value : Value) (rest : List Char) : List Char :=
  match value with
  | .null => "null".toList ++ rest
  | .bool true => "true".toList ++ rest
  | .bool false => "false".toList ++ rest
  | .number value => (toString value).toList ++ rest
  | .decimal negative significand exponent => printDecimal negative significand exponent ++ rest
  | .string text => printString text rest
  | .array [] => '[' :: ']' :: rest
  | .array (item :: items) =>
    '[' :: (newLine (depth + 1) <| printValue (depth + 1) item <|
      printItems (depth + 1) items <| newLine depth <| ']' :: rest)
  | .object [] => '\x7b' :: '\x7d' :: rest
  | .object ((name, value) :: members) =>
    '\x7b' :: (newLine (depth + 1) <| printString name <| ':' :: ' ' ::
      (printValue (depth + 1) value <| printMembers (depth + 1) members <|
        newLine depth <| '\x7d' :: rest))

def printItems (depth : Nat) (items : List Value) (rest : List Char) : List Char :=
  match items with
  | [] => rest
  | item :: items =>
    ',' :: (newLine depth <| printValue depth item <| printItems depth items rest)

def printMembers (depth : Nat) (members : List (String × Value)) (rest : List Char) :
    List Char :=
  match members with
  | [] => rest
  | (name, value) :: members =>
    ',' :: (newLine depth <| printString name <| ':' :: ' ' ::
      (printValue depth value <| printMembers depth members rest))

end

def Value.print (value : Value) : List Char :=
  printValue 0 value []

end AccessibleMarkup.Json
