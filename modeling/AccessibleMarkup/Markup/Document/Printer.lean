import AccessibleMarkup.Markup.Document.Builder

/-!
Elements as text. The printed form is one form for all documents that read alike: attributes sorted
by name, values in quotes, every element with its end tag unless it is void and empty.
-/
namespace AccessibleMarkup.Markup

open AccessibleMarkup.Text

/-- The three characters that would be read as markup, as references. -/
def escapeMarkup (text : List Char) : List Char :=
  text.flatMap fun c =>
    if c = '&' then "&amp;".toList
    else if c = '<' then "&lt;".toList
    else if c = '>' then "&gt;".toList
    else [c]

/-- An escaped value in quotes: single ones if it holds a double quote and no single one. -/
def quoteValue (text : List Char) : List Char :=
  if !text.contains '"' then '"' :: text ++ ['"']
  else if !text.contains '\x27' then '\x27' :: text ++ ['\x27']
  else '"' :: text.flatMap (fun c => if c = '"' then "&quot;".toList else [c]) ++ ['"']

/-- The attributes that hold a list of words, on all elements or on some. -/
def isWordList (tag name : String) : Bool :=
  match name with
  | "class" | "accesskey" | "dropzone" => true
  | "rel" => tag = "a" || tag = "link" || tag = "area"
  | "rev" => tag = "a" || tag = "link"
  | "headers" => tag = "td" || tag = "th"
  | "accept-charset" => tag = "form"
  | "archive" => tag = "object"
  | "sizes" => tag = "icon"
  | "sandbox" => tag = "iframe"
  | "for" => tag = "output"
  | _ => false

def joinWords (text : List Char) : List Char :=
  [' '].intercalate (fields text)

/-- White space and `charset=` at the front of the text, and what follows them. -/
def charsetLead? (text : List Char) : Option (List Char × List Char) :=
  let (blank, rest) := splitBlank text
  let key := "charset=".toList
  if key.isPrefixOf rest then some (blank ++ key, rest.drop key.length) else none

/-- `declareUnicode` behind the part already done, which stands in reverse. `atStart` says that a
line begins here. -/
def declareUnicodeOnto (done : List Char) (atStart : Bool) (text : List Char) : List Char :=
  match text with
  | [] => done.reverse
  | c :: rest =>
    let lead? :=
      if atStart && (charsetLead? text).isSome then (charsetLead? text).map fun lead => ([], lead)
      else if c = ';' then (charsetLead? rest).map fun lead => ([';'], lead)
      else none
    match lead? with
    | some (mark, lead, behind) =>
      let value := (splitRun (fun c _ => c != ';') behind).1
      let read := mark ++ lead ++ value
      declareUnicodeOnto ("utf-8".toList.reverse ++ (mark ++ lead).reverse ++ done) false
        (rest.drop (read.length - 1))
    | none => declareUnicodeOnto (c :: done) (c = '\n') rest
termination_by text.length
decreasing_by all_goals simp only [List.length_cons, List.length_drop]; omega

/-- A content type with every character set it names replaced by the one that is written. -/
def declareUnicode (text : List Char) : List Char :=
  declareUnicodeOnto [] true text

namespace Element

def declaresContentType (element : Element) : Bool :=
  element.name = "meta" &&
    match element.value? "http-equiv" with
    | some value => lowercase value.toList = "content-type".toList
    | none => false

/-- The value of an attribute as it is printed: lists of words with single blanks, and the
character set of a `meta` element as the one that is written. -/
def printedValue (element : Element) (known : Attribute) : List Char :=
  if element.name = "meta" && known.name = "charset" then "utf-8".toList
  else if known.name = "content" && !element.has "charset" && element.declaresContentType then
    declareUnicode known.value.toList
  else if isWordList element.name known.name then joinWords known.value.toList
  else known.value.toList

def printAttribute (element : Element) (known : Attribute) : List Char :=
  ' ' :: known.name.toList ++ '=' :: quoteValue (escapeMarkup (element.printedValue known))

/-- The name and the attributes, sorted by name. -/
def printInner (element : Element) : List Char :=
  element.name.toList ++
    (element.attributes.mergeSort fun one other => one.name ≤ other.name).flatMap
      element.printAttribute

end Element

def printText (kind : StringKind) (text : List Char) : List Char :=
  match kind with
  | .text => escapeMarkup text
  | .verbatim => text
  | .comment => "<!--".toList ++ text ++ "-->".toList
  | .characterData => "<![CDATA[".toList ++ text ++ "]]>".toList
  | .instruction => "<?".toList ++ text ++ ['>']
  | .declaration => "<?".toList ++ text ++ "?>".toList
  | .doctype => "<!DOCTYPE ".toList ++ text ++ ['>', '\n']

/-- An event as it is printed, and how many events that covers beyond it: a void element without
content closes in its own tag. -/
def printEvent : Event → List Event → List Char × Bool
  | .opened element, .closed _ :: _ =>
    if isVoid element.name then ('<' :: element.printInner ++ ['/', '>'], true)
    else ('<' :: element.printInner ++ ['>'], false)
  | .opened element, _ => ('<' :: element.printInner ++ ['>'], false)
  | .closed name, _ => ('<' :: '/' :: name.toList ++ ['>'], false)
  | .string kind text, _ => (printText kind text, false)

/-- How many elements are open behind an event, if `depth` are open before it. -/
def Event.depthBehind (depth : Nat) : Event → Nat
  | .opened _ => depth + 1
  | .closed _ => depth - 1
  | .string _ _ => depth

/-- The printed events up to the one behind which no element is open, cut when more than `limit`
characters are there. What is printed already stands in reverse. `emptyTag` says that the tag
already printed closes the element that closes next. -/
def printOnto (limit : Nat) (done : List Char) (depth : Nat) (emptyTag : Bool) :
    List Event → List Char
  | [] => done.reverse
  | event :: rest =>
    let (printed, closes) := if emptyTag then ([], false) else printEvent event rest
    let done := printed.reverse ++ done
    let depth := event.depthBehind depth
    if depth = 0 || limit < done.length then done.reverse
    else printOnto limit done depth closes rest

namespace Node

/-- The element and all that it holds as text, of which at least the first `limit` characters are
printed if there are so many. -/
def print (node : Node) (limit : Nat) : List Char :=
  printOnto limit [] 0 false (.opened node.element :: node.following)

/-- The longest text that describes an element. -/
def descriptionLimit : Nat := 80

/-- The element as text, cut after `descriptionLimit` characters. -/
def describe (node : Node) : String :=
  let printed := node.print descriptionLimit
  String.ofList <|
    if printed.length ≤ descriptionLimit then printed
    else printed.take descriptionLimit ++ "...".toList

end Node

end AccessibleMarkup.Markup
