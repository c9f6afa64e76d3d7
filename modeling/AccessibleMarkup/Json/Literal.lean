import AccessibleMarkup.Json.Value
import AccessibleMarkup.Text.Quoted

/-! Values as they are named in messages. -/
namespace AccessibleMarkup.Json

open AccessibleMarkup.Text

/-- Decimal digits with a point or an exponent: the point stands among the digits as long as that
takes at most sixteen places before it or four zeros behind it. -/
def decimalLiteral (negative : Bool) (significand : Nat) (exponent : Int) : List Char :=
  let sign := if negative then ['-'] else []
  let digits := (toString significand).toList
  let trimmed := (digits.reverse.dropWhile (· = '0')).reverse
  if trimmed.isEmpty then sign ++ "0.0".toList
  else
    let magnitude := (digits.length : Int) + exponent - 1
    sign ++
      if -4 ≤ magnitude ∧ magnitude < 0 then
        "0.".toList ++ List.replicate (-magnitude - 1).toNat '0' ++ trimmed
      else if 0 ≤ magnitude ∧ magnitude < 16 then
        let whole := magnitude.toNat + 1
        let fraction := trimmed.drop whole
        trimmed.take whole ++ List.replicate (whole - trimmed.length) '0' ++
          '.' :: (if fraction.isEmpty then ['0'] else fraction)
      else
        let fraction := trimmed.drop 1
        let size := (toString magnitude.natAbs).toList
        trimmed.take 1 ++ (if fraction.isEmpty then [] else '.' :: fraction) ++
          ['e', if magnitude < 0 then '-' else '+'] ++
          (if size.length < 2 then '0' :: size else size)

mutual

/-- A value as a message names it. -/
def literal : Value → List Char
  | .null => "None".toList
  | .bool true => "True".toList
  | .bool false => "False".toList
  | .number value => (toString value).toList
  | .decimal negative significand exponent => decimalLiteral negative significand exponent
  | .string text => quoted text.toList
  | .array [] => ['[', ']']
  | .array (item :: items) => '[' :: literal item ++ itemLiterals items ++ [']']
  | .object [] => ['\x7b', '\x7d']
  | .object ((name, value) :: members) =>
    '\x7b' :: quoted name.toList ++ ':' :: ' ' :: literal value ++ memberLiterals members ++
      ['\x7d']

def itemLiterals : List Value → List Char
  | [] => []
  | item :: items => ',' :: ' ' :: literal item ++ itemLiterals items

def memberLiterals : List (String × Value) → List Char
  | [] => []
  | (name, value) :: members =>
    ',' :: ' ' :: quoted name.toList ++ ':' :: ' ' :: literal value ++ memberLiterals members

end

def Value.kindName : Value → String
  | .null => "NoneType"
  | .bool _ => "bool"
  | .number _ => "int"
  | .decimal _ _ _ => "float"
  | .string _ => "str"
  | .array _ => "list"
  | .object _ => "dict"

end AccessibleMarkup.Json
