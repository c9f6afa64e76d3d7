import AccessibleMarkup.Markup.Buffer
import AccessibleMarkup.Markup.Document
import AccessibleMarkup.Markup.Malformation
import AccessibleMarkup.Markup.Token.Scanner

/-!
Finding the opening tag of an element in a text. In the text that the element was read from, its
tag stands at its position and reads the same. Another text may hold something else there; then
every way to read it as a tag is tried, from the longest reading of each part to the shortest.
-/
namespace AccessibleMarkup.Markup

open AccessibleMarkup.Text

/-- The end of an opening tag with white space before it. -/
def tagEnd : Mark := fun text =>
  match splitBlank text with
  | (blank, '>' :: rest) => some (blank ++ ['>'], rest)
  | (blank, '/' :: '>' :: rest) => some (blank ++ ['/', '>'], rest)
  | _ => none

/-- One way to read a part of a tag: the last character of the part and what follows it. -/
abbrev Reading := Char × List Char

/-- `frontReadings` behind the shorter ones already found. -/
def frontReadingsOnto (admits : Char → Bool) (found : List Reading) (before : Char) :
    Nat → List Char → List Reading
  | length + 1, text@(c :: rest) =>
    frontReadingsOnto admits (if admits before then (before, text) :: found else found) c length
      rest
  | _, text => (before, text) :: found

/-- All ways to take a part of at most the given length off the front of a text, the longest first.
The longest one counts in any case, a shorter one if `admits` accepts the character that it ends
with. `before` is the character in front of the text. -/
def frontReadings (admits : Char → Bool) (before : Char) (length : Nat) (text : List Char) :
    List Reading :=
  frontReadingsOnto admits [] before length text

/-- The ways to read a value without quotes, behind the character `before`. -/
def bareReadings (before : Char) (text : List Char) : List Reading :=
  frontReadings admitsAttribute before (splitBareValue text).1.length text

/-- The ways to read what may follow the name of an attribute. Readings that leave the same text
behind the same character as one before are left out. -/
def assignmentReadings (text : List Char) : List Reading :=
  match splitLead? text with
  | none => []
  | some ((_, signs, behind), rest) =>
    let whole := match rest with
      | [] => [(lastOr '=' behind, [])]
      | c :: inner =>
        if isQuote c then
          match splitAtFirst? c inner with
          | some (_, rest) => [(c, rest)]
          | none => []
        else bareReadings (lastOr '=' behind) rest
    let empty := match behind.getLast? with
      | some blank => [(blank, rest)]
      | none => []
    let fewerSigns := if 2 ≤ signs.length then bareReadings '=' ('=' :: behind ++ rest) else []
    whole ++ empty ++ fewerSigns

/-- The ways to read an attribute behind the character `before`, with the separators behind it. -/
def attributeReadings (before : Char) (text : List Char) : List Reading :=
  match text with
  | [] => []
  | c :: rest =>
    if admitsAttribute before && beginsName c then
      let (name, behind) := splitRun (fun c _ => continuesName c) rest
      let readings := assignmentReadings behind ++ frontReadings isQuote c name.length rest
      readings.map fun reading =>
        let (gap, rest) := splitGap reading.2
        (lastOr reading.1 gap, rest)
    else []

/-- What follows the first reading of the rest of a tag, attributes and end. Every attribute uses
up fuel, and there are no more of them than characters. -/
def afterAttributes? : Nat → Char → List Char → Option (List Char)
  | 0, _, _ => none
  | fuel + 1, before, text =>
    match (attributeReadings before text).findSome? fun reading =>
        afterAttributes? fuel reading.1 reading.2 with
    | some rest => some rest
    | none => (tagEnd text).map (·.2)

/-- The name of a tag and what follows the tag, in the first reading that ends. The text follows
the `<`. -/
def searchOpenTag? (text : List Char) : Option (List Char × List Char) :=
  match text with
  | [] => none
  | c :: rest =>
    if isLetter c then
      let longest := (splitRun (fun c _ => continuesTagName c) rest).1.length
      (frontReadings (fun _ => true) c longest rest).findSome? fun reading =>
        let (gap, behind) := splitGap reading.2
        (afterAttributes? text.length (lastOr reading.1 gap) behind).map fun left =>
          (text.take (text.length - reading.2.length), left)
    else none

/-- The name and the text of the opening tag at the front of a text. -/
def openTagAt? (text : List Char) : Option (List Char × List Char) :=
  match text with
  | '<' :: behind =>
    match readOpenTag behind with
    | .complete tag _ => some (tag.name, tag.source)
    | _ =>
      (searchOpenTag? behind).map fun found =>
        (found.1, text.take (text.length - found.2.length))
  | _ => none

structure PlacedTag where
  start : Nat
  source : List Char
  deriving DecidableEq

def PlacedTag.stop (placed : PlacedTag) : Nat :=
  placed.start + placed.source.length

/-- Why the tag of an element is not found. -/
inductive LocationFault where
  | malformed (fault : Malformation)
  /-- The text has no such line. -/
  | noSuchLine
  deriving DecidableEq

/-- The longest piece of text that stands for a tag that is not there. -/
def fragmentLimit : Nat := 80

/-- The opening tag of an element in a text. -/
def locate (buffer : Buffer) (element : Element) : Except LocationFault PlacedTag :=
  match element.position with
  | none => .error (.malformed (.noPosition element.name))
  | some position =>
    match buffer.lineStart? position.line with
    | none => .error .noSuchLine
    | some lineStart =>
      let start := lineStart + position.column
      let text := buffer.behind start
      let missing : LocationFault :=
        .malformed (.noOpenTag element.name (String.ofList (text.take fragmentLimit)))
      match openTagAt? text with
      | none => .error missing
      | some (name, source) =>
        if String.ofList (lowercase name) = element.name then .ok ⟨start, source⟩
        else .error missing

end AccessibleMarkup.Markup
