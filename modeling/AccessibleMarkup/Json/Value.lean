/-! Values of the JSON data format. -/
namespace AccessibleMarkup.Json

/-- A JSON value. Members of an object keep the order in which they are written. A number with a
fraction or an exponent is `significand` times ten to the `exponent`; its sign stands apart, since
zero has one too. -/
inductive Value where
  | null
  | bool (value : Bool)
  | number (value : Int)
  | decimal (negative : Bool) (significand : Nat) (exponent : Int)
  | string (value : String)
  | array (items : List Value)
  | object (members : List (String × Value))

/-- The member of an object under a name; the last one where the name is repeated. -/
def Value.member? (value : Value) (name : String) : Option Value :=
  match value with
  | .object members => (members.reverse.find? fun member => member.1 = name).map (·.2)
  | _ => none

/-- A text, or null where there is none. -/
def Value.ofOption (text : Option String) : Value :=
  match text with
  | some text => .string text
  | none => .null

end AccessibleMarkup.Json
