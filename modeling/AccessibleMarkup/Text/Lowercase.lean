import AccessibleMarkup.Text.Lowercase.Mapping
import AccessibleMarkup.Text.Lowercase.Context

/-!
Lower case. Every letter has its own lower-case form but for two: the dotted capital I becomes two
characters, and a capital sigma takes its final form at the end of a word.
-/
namespace AccessibleMarkup.Text

def lowerChar (c : Char) : List Char :=
  if c.toNat < 0x80 then [c.toLower]
  else if c.toNat = 0x130 then ['i', '\u0307']
  else [((caseRuns.findSome? fun run => run.lower? c.toNat).map Char.ofNat).getD c]

/-- A letter with case comes next, when the characters that are passed over are left out. -/
def beforeCased (text : List Char) : Bool :=
  match text.dropWhile isPassedOver with
  | [] => false
  | c :: _ => isCased c

/-- The lower-case form of a character between its neighbours. `afterCased` says that a letter
with case comes before it. -/
def lowerInContext (afterCased : Bool) (c : Char) (rest : List Char) : List Char :=
  if c.toNat = 0x3A3 then if afterCased && !beforeCased rest then ['\u03C2'] else ['\u03C3']
  else lowerChar c

/-- `lowercase` behind the part already done, which stands in reverse. -/
def lowercaseOnto (done : List Char) (afterCased : Bool) : List Char → List Char
  | [] => done.reverse
  | c :: rest =>
    lowercaseOnto ((lowerInContext afterCased c rest).reverse ++ done)
      (if isPassedOver c then afterCased else isCased c) rest

def lowercase (text : List Char) : List Char :=
  lowercaseOnto [] false text

end AccessibleMarkup.Text
