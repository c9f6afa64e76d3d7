import AccessibleMarkup.Markup.CharacterReference.UpperNames
import AccessibleMarkup.Markup.CharacterReference.LowerNames

/-! The names of characters (HTML 5) and those that are known without a semicolon too. -/
namespace AccessibleMarkup.Markup

/-- The names that begin with a letter, each with the code points it stands for. -/
def namesUnder (letter : Char) : List (String × List Nat) :=
  match letter with
  | 'A' => namedUpperA
  | 'B' => namedUpperB
  | 'C' => namedUpperC
  | 'D' => namedUpperD
  | 'E' => namedUpperE
  | 'F' => namedUpperF
  | 'G' => namedUpperG
  | 'H' => namedUpperH
  | 'I' => namedUpperI
  | 'J' => namedUpperJ
  | 'K' => namedUpperK
  | 'L' => namedUpperL
  | 'M' => namedUpperM
  | 'N' => namedUpperN
  | 'O' => namedUpperO
  | 'P' => namedUpperP
  | 'Q' => namedUpperQ
  | 'R' => namedUpperR
  | 'S' => namedUpperS
  | 'T' => namedUpperT
  | 'U' => namedUpperU
  | 'V' => namedUpperV
  | 'W' => namedUpperW
  | 'X' => namedUpperX
  | 'Y' => namedUpperY
  | 'Z' => namedUpperZ
  | 'a' => namedLowerA
  | 'b' => namedLowerB
  | 'c' => namedLowerC
  | 'd' => namedLowerD
  | 'e' => namedLowerE
  | 'f' => namedLowerF
  | 'g' => namedLowerG
  | 'h' => namedLowerH
  | 'i' => namedLowerI
  | 'j' => namedLowerJ
  | 'k' => namedLowerK
  | 'l' => namedLowerL
  | 'm' => namedLowerM
  | 'n' => namedLowerN
  | 'o' => namedLowerO
  | 'p' => namedLowerP
  | 'q' => namedLowerQ
  | 'r' => namedLowerR
  | 's' => namedLowerS
  | 't' => namedLowerT
  | 'u' => namedLowerU
  | 'v' => namedLowerV
  | 'w' => namedLowerW
  | 'x' => namedLowerX
  | 'y' => namedLowerY
  | 'z' => namedLowerZ
  | _ => []

def unterminatedNames : List String :=
  ["AElig", "AMP", "Aacute", "Acirc", "Agrave", "Aring", "Atilde", "Auml", "COPY", "Ccedil",
    "ETH", "Eacute", "Ecirc", "Egrave", "Euml", "GT", "Iacute", "Icirc", "Igrave", "Iuml", "LT",
    "Ntilde", "Oacute", "Ocirc", "Ograve", "Oslash", "Otilde", "Ouml", "QUOT", "REG", "THORN",
    "Uacute", "Ucirc", "Ugrave", "Uuml", "Yacute", "aacute", "acirc", "acute", "aelig", "agrave",
    "amp", "aring", "atilde", "auml", "brvbar", "ccedil", "cedil", "cent", "copy", "curren",
    "deg", "divide", "eacute", "ecirc", "egrave", "eth", "euml", "frac12", "frac14", "frac34",
    "gt", "iacute", "icirc", "iexcl", "igrave", "iquest", "iuml", "laquo", "lt", "macr", "micro",
    "middot", "nbsp", "not", "ntilde", "oacute", "ocirc", "ograve", "ordf", "ordm", "oslash",
    "otilde", "ouml", "para", "plusmn", "pound", "quot", "raquo", "reg", "sect", "shy", "sup1",
    "sup2", "sup3", "szlig", "thorn", "times", "uacute", "ucirc", "ugrave", "uml", "uuml",
    "yacute", "yen", "yuml"]

/-- The characters that a name stands for, whether or not it needs a semicolon. -/
def namedCharacters? (name : List Char) : Option (List Char) :=
  match name with
  | [] => none
  | letter :: _ =>
    ((namesUnder letter).find? fun entry => entry.1.toList == name).map fun entry =>
      entry.2.map Char.ofNat

/-- The characters that a name stands for without a semicolon. -/
def unterminated? (name : List Char) : Option (List Char) :=
  if unterminatedNames.any fun known => known.toList == name then namedCharacters? name else none

end AccessibleMarkup.Markup
