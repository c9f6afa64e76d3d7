import AccessibleMarkup.Markup.CharacterReference
import AccessibleMarkup.Markup.OpenTag

/-! The tokens of a markup text. -/
namespace AccessibleMarkup.Markup

inductive Content where
  /-- Running text, as written. -/
  | text
  /-- A character reference by name. -/
  | named (name : List Char)
  /-- A character reference by number. -/
  | numeric (numeral : Numeral)
  | openTag (tag : OpenTag)
  | closeTag (name : List Char)
  | comment (text : List Char)
  | instruction (text : List Char)
  /-- A document type declaration: what stands between `<!` and `>`. -/
  | doctype (text : List Char)
  /-- A marked section: what stands between `<![` and the end mark. -/
  | marked (text : List Char)
  /-- Text without a meaning. -/
  | ignored
  deriving DecidableEq

/-- A token and the text it was read from. -/
structure Token where
  content : Content
  source : List Char
  deriving DecidableEq

/-- Why a text is no markup at all. -/
inductive Rejection where
  /-- A marked section with a name, followed by its white space, that means nothing. -/
  | unknownSection (name : List Char)
  /-- A marked section without a name. The text begins with its `<![`. -/
  | missingSectionName (text : List Char)
  /-- A decimal character reference of too many digits. -/
  | overlongNumeral (digits : Nat)
  deriving DecidableEq

/-- Why a token cannot be part of a document: a character reference in it has too many digits. -/
def Token.fault? (token : Token) : Option Rejection :=
  match token.content with
  | .numeric numeral => numeral.overlong?.map .overlongNumeral
  | .openTag tag =>
    tag.attributes.findSome? fun written =>
      (written.value?.bind overlongReference?).map .overlongNumeral
  | _ => none

end AccessibleMarkup.Markup
