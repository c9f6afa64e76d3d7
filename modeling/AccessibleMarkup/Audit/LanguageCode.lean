import AccessibleMarkup.Markup.OpenTag

/-!
Language codes: a primary subtag of letters and further subtags of letters and digits. Letters that
differ from an ASCII letter in case alone count as that letter, and a line feed may end the code.
-/
namespace AccessibleMarkup

open AccessibleMarkup.Markup

/-- A letter, in the sense of language codes. -/
def isCodeLetter (c : Char) : Bool :=
  isLetter c || c = '\u0130' || c = '\u0131' || c = '\u017F' || c = '\u212A'

/-- A letter or a digit, in the sense of language codes. -/
def isCodeCharacter (c : Char) : Bool :=
  isCodeLetter c || c.isDigit

/-- `subtags` behind the subtags already complete, last first, and the characters of the current
one, last first. -/
def subtagsOnto (done : List (List Char)) (subtag : List Char) :
    List Char → List (List Char)
  | [] => (subtag.reverse :: done).reverse
  | c :: rest =>
    if c = '-' then subtagsOnto (subtag.reverse :: done) [] rest
    else subtagsOnto done (c :: subtag) rest

/-- The pieces of a text between its hyphens. -/
def subtags (text : List Char) : List (List Char) :=
  subtagsOnto [] [] text

def withoutLineFeed (text : List Char) : List Char :=
  if text.getLast? = some '\n' then text.dropLast else text

def isPrimarySubtag (subtag : List Char) : Bool :=
  (subtag.length = 2 || subtag.length = 3) && subtag.all isCodeLetter

def isFurtherSubtag (subtag : List Char) : Bool :=
  2 ≤ subtag.length && subtag.length ≤ 8 && subtag.all isCodeCharacter

/-- The text has the subtags of a language code, a line feed at its end aside. -/
def hasCodeSubtags (text : List Char) : Bool :=
  match subtags (withoutLineFeed text) with
  | [] => false
  | primary :: further => isPrimarySubtag primary && further.all isFurtherSubtag

/-- A language code: the subtags of one, and no hyphen at the end. -/
def isLanguageCode (text : List Char) : Bool :=
  hasCodeSubtags text && text.getLast? ≠ some '-'

end AccessibleMarkup
