import AccessibleMarkup.Markup.Document
import AccessibleMarkup.Markup.Token.Scanner

/-!
From tokens to a document. There are no implied end tags: an element is a child of the innermost
open element, and an end tag closes the innermost open element of its name with all that is open
inside it. Void elements close at once; an end tag that names one is then spent once for each.
-/
namespace AccessibleMarkup.Markup

open AccessibleMarkup.Text

def voidNames : List String :=
  ["area", "base", "br", "col", "embed", "hr", "img", "input", "keygen", "link", "menuitem",
    "meta", "param", "source", "track", "wbr", "basefont", "bgsound", "command", "frame", "image",
    "isindex", "nextid", "spacer"]

def isVoid (name : String) : Bool := voidNames.contains name

/-- An element that keeps strings of white space as they are. -/
def keepsLayout (name : String) : Bool := name = "pre" || name = "textarea"

/-- An element whose text is printed as it is. -/
def isVerbatim (name : String) : Bool := name = "script" || name = "style"

/-- An open element. The flag says that it or an element around it keeps strings of white space. -/
structure OpenElement where
  name : String
  inLayout : Bool

/-- A document under construction. -/
structure Builder where
  /-- The open elements, innermost first. -/
  stack : List OpenElement
  /-- The pieces of the string that is being collected, last first. -/
  pending : List (List Char)
  /-- The void elements whose end tag is still to be spent. -/
  unspent : List String
  /-- The place behind the last token. -/
  position : Position
  /-- The events so far, last first. -/
  events : List Event

/-- White space of the kind that a string of nothing else is reduced to. -/
def isLayoutBlank (c : Char) : Bool :=
  c = ' ' || c = '\n' || c = '\t' || c = '\x0C' || c = '\r'

/-- A string of white space alone becomes one line feed if it holds one, and one blank
otherwise. -/
def reduceLayout (text : List Char) : List Char :=
  if text.all isLayoutBlank then if text.contains '\n' then ['\n'] else [' '] else text

/-- The attributes of a tag in order of first occurrence; the last value of a repeated one
counts. -/
def addAttribute (known : List Attribute) (added : Attribute) : List Attribute :=
  if known.any (fun other => other.name = added.name) then
    known.map fun other => if other.name = added.name then added else other
  else known ++ [added]

/-- An attribute as the document holds it. -/
def WrittenAttribute.read (written : WrittenAttribute) : Attribute :=
  { name := String.ofList (lowercase written.name)
    value := String.ofList (decodeValue (written.value?.getD [])) }

/-- The attributes of a tag as the document holds them. -/
def OpenTag.readAttributes (tag : OpenTag) : List Attribute :=
  (tag.attributes.map WrittenAttribute.read).foldl addAttribute []

namespace Builder

/-- The construction before the first token. -/
def start : Builder := ⟨[], [], [], Position.start, []⟩

/-- Ends the string that is being collected, if there is one. -/
def flush (builder : Builder) (kind : StringKind) : Builder :=
  match builder.pending with
  | [] => builder
  | pieces =>
    let text := pieces.reverse.flatten
    let parent := builder.stack.head?
    let text := if (parent.map (·.inLayout)).getD false then text else reduceLayout text
    let verbatim := (parent.map fun parent => isVerbatim parent.name).getD false
    let kind := if kind = .text && verbatim then .verbatim else kind
    { builder with pending := [], events := .string kind text :: builder.events }

def endText (builder : Builder) : Builder := builder.flush .text

def collect (builder : Builder) (piece : List Char) : Builder :=
  { builder with pending := piece :: builder.pending }

def addString (builder : Builder) (kind : StringKind) (text : List Char) : Builder :=
  (builder.endText.collect text).flush kind

def closeInnermost (builder : Builder) : Builder :=
  match builder.stack with
  | [] => builder
  | innermost :: rest =>
    { builder with stack := rest, events := .closed innermost.name :: builder.events }

/-- Closes the innermost element of a name and what is open inside it, if one of that name is
open. -/
def closeNamed (builder : Builder) (name : String) : Builder :=
  match builder.stack.span (fun element => element.name ≠ name) with
  | (_, []) => builder
  | (inner, found :: rest) =>
    let closed := (inner ++ [found]).map fun element => Event.closed element.name
    { builder with stack := rest, events := closed.reverse ++ builder.events }

def openElement (builder : Builder) (element : Element) : Builder :=
  let around := (builder.stack.head?.map (·.inLayout)).getD false
  { builder with
    stack := ⟨element.name, around || keepsLayout element.name⟩ :: builder.stack
    events := .opened element :: builder.events }

/-- An end tag. It is spent on a void element that closed before, or else it closes. -/
def endTag (builder : Builder) (name : String) : Builder :=
  if isVoid name && builder.unspent.contains name then
    { builder with unspent := builder.unspent.erase name }
  else builder.endText.closeNamed name

/-- An opening tag. A tag that closes itself does so even where the end tag of an earlier void
element of its name is still to be spent. It leaves no end tag to be spent, and spends none. -/
def openTag (builder : Builder) (tag : OpenTag) : Builder :=
  let name := String.ofList (lowercase tag.name)
  let opened := builder.endText.openElement ⟨name, tag.readAttributes, some builder.position⟩
  if tag.selfClosed then opened.closeInnermost
  else if isVoid name then
    let closed := opened.closeInnermost
    { closed with unspent := name :: closed.unspent }
  else opened

/-- What a token adds, its place aside. -/
def addContent (builder : Builder) (token : Token) : Builder :=
  match token.content with
  | .text => builder.collect token.source
  | .named name => builder.collect (namedText name)
  | .numeric numeral => builder.collect [numeral.textCharacter]
  | .openTag tag => builder.openTag tag
  | .closeTag name => builder.endTag (String.ofList (lowercase name))
  | .comment text => builder.addString .comment text
  | .instruction text => builder.addString .instruction text
  | .doctype text => builder.addString .doctype (text.drop 8)
  | .marked text =>
    if (text.take 6).map Char.toUpper = "CDATA[".toList then
      builder.addString .characterData (text.drop 6)
    else builder.addString .declaration text
  | .ignored => builder

def add (builder : Builder) (token : Token) : Builder :=
  let added := builder.addContent token
  { added with position := builder.position.advance token.source }

/-- The document when no token follows: what is open closes. -/
def finish (builder : Builder) : Document :=
  let ended := builder.endText
  let closed := ended.stack.map fun element => Event.closed element.name
  ⟨(closed.reverse ++ ended.events).reverse⟩

end Builder

/-- The document that a sequence of tokens makes. -/
def Document.ofTokens (tokens : List Token) : Document :=
  (tokens.foldl Builder.add Builder.start).finish

/-- The document that a text writes. What keeps a text from being markup counts in the order of
the text. -/
def Document.read (text : List Char) : Except Rejection Document :=
  let scanned := scan text
  match scanned.tokens.findSome? Token.fault? with
  | some fault => .error fault
  | none =>
    match scanned.rejection with
    | some fault => .error fault
    | none => .ok (Document.ofTokens scanned.tokens)

end AccessibleMarkup.Markup
