import AccessibleMarkup.Aria.Cleanup
import AccessibleMarkup.Config

/-!
Labels for elements that lack one. Each rule adds one attribute to the elements of one kind: those
of the document that lack the attribute, or for inputs every piece of the text that looks like the
tag of one. The attribute goes right behind the tag name; all else stays as it was.
-/
namespace AccessibleMarkup

open AccessibleMarkup.Markup
open AccessibleMarkup.Text

/-- How a rule finds the tags it works on. -/
inductive Finder where
  /-- In the document: its elements that lack the attribute. -/
  | elements
  /-- In the text: what looks like the tag of an input, and lacks the attribute. -/
  | inputTags
  deriving DecidableEq

/-- A rule that adds one attribute where it is missing. -/
structure Rule where
  name : String
  tag : String
  attributeName : String
  value : String
  finder : Finder
  deriving DecidableEq

namespace Rule

/-- Buttons get a name. -/
def buttons : Rule := ⟨"buttons", "button", "aria-label", "button", .elements⟩

/-- Navigation landmarks get a name. -/
def navigation : Rule := ⟨"navigation", "nav", "aria-label", "navigation", .elements⟩

/-- Forms refer to their label. -/
def forms : Rule := ⟨"forms", "form", "aria-labelledby", "form-label", .elements⟩

/-- Inputs get a name. -/
def inputs : Rule := ⟨"inputs", "input", "aria-label", "input", .inputTags⟩

def all : List Rule := [buttons, navigation, forms, inputs]

/-- The elements that the rule works on, as a selector, if it looks for them in the document. -/
def selector? (rule : Rule) : Option String :=
  match rule.finder with
  | .elements => some (rule.tag ++ ":not([" ++ rule.attributeName ++ "])")
  | .inputTags => none

def selects (rule : Rule) (element : Element) : Bool :=
  element.name = rule.tag && !element.has rule.attributeName

def label (rule : Rule) : List Char :=
  ' ' :: rule.attributeName.toList ++ '=' :: '"' :: rule.value.toList ++ ['"']

/-- An opening tag with the label right behind its name. -/
def insertInto (rule : Rule) (openTag : List Char) : Except Failure (List Char) :=
  match tagStart openTag with
  | [] => .error (.notAnOpenTag openTag)
  | start => .ok (start ++ rule.label ++ openTag.drop start.length)

end Rule

def Config.rules (config : Config) : List Rule :=
  Rule.all.filter fun rule =>
    if rule = Rule.buttons then config.labelButtons
    else if rule = Rule.navigation then config.labelNavigation
    else if rule = Rule.forms then config.labelForms
    else config.labelInputs

/-- What looks like the tag of an input at the front of the text behind a `<`: the word, then white
space, a slash or the end, and all up to the first `>`. -/
def inputTagAfter? (text : List Char) : Option (List Char) :=
  match afterWord? "input".toList text with
  | some (c :: _) =>
    if isBlank c || c = '/' || c = '>' then
      (splitAtFirst? '>' text).map fun read => '<' :: read.1 ++ ['>']
    else none
  | _ => none

/-- `inputTags` behind `offset` characters and the tags found there, last first. -/
def inputTagsOnto (found : List PlacedTag) (offset : Nat) : List Char → List PlacedTag
  | [] => found.reverse
  | c :: rest =>
    match if c = '<' then inputTagAfter? rest else none with
    | some source =>
      inputTagsOnto (⟨offset, source⟩ :: found) (offset + source.length)
        (rest.drop (source.length - 1))
    | none => inputTagsOnto found (offset + 1) rest
termination_by text => text.length
decreasing_by all_goals simp only [List.length_cons, List.length_drop]; omega

/-- Every piece of the text that looks like the tag of an input, wherever it stands. -/
def inputTags (text : List Char) : List PlacedTag :=
  inputTagsOnto [] 0 text

def labelEdit (rule : Rule) (placed : PlacedTag) : Except Failure Edit := do
  let labelled ← rule.insertInto placed.source
  pure ⟨placed.start, placed.stop, labelled⟩

def elementEdits (rule : Rule) (text : List Char) : Except Failure (List Edit) := do
  let document ← Aria.readDocument text
  let buffer := Buffer.ofText text
  (document.elements.filter rule.selects).mapM fun element => do
    let placed ← failWith .ofLocationFault (locate buffer element)
    labelEdit rule placed

def inputEdits (rule : Rule) (text : List Char) : Except Failure (List Edit) :=
  ((inputTags text).filter fun placed =>
    !hasAttribute placed.source rule.attributeName.toList).mapM (labelEdit rule)

def Rule.edits (rule : Rule) (text : List Char) : Except Failure (List Edit) :=
  match rule.finder with
  | .elements => elementEdits rule text
  | .inputTags => inputEdits rule text

def Rule.line (rule : Rule) (count : Nat) : String :=
  "Rule '" ++ rule.name ++ "': added " ++ rule.attributeName ++ " to " ++ toString count ++
    " element(s)"

/-- The text with the labels that a rule adds. -/
def Rule.apply (rule : Rule) (text : List Char) : Logged (List Char) := do
  let edits ← Logged.ofOutcome (rule.edits text)
  if !edits.isEmpty then Logged.line (rule.line edits.length)
  Logged.ofOutcome (failWith .malformed (splice text edits))

end AccessibleMarkup
