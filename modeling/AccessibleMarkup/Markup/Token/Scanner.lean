import AccessibleMarkup.Markup.Token
import AccessibleMarkup.Text.Lowercase

/-!
Cutting a markup text into tokens. The text is read in two passes. The first stops at markup that
does not end; the second begins there, takes such markup as text, and where it stops in turn, all
that is left is text. The body of a script or a style sheet holds no markup but its own end tag;
if that never comes, the rest of the text is dropped.
-/
namespace AccessibleMarkup.Markup

open AccessibleMarkup.Text

inductive Pass where
  | first
  | last
  deriving DecidableEq

/-- How many passes come after this one. -/
def Pass.left : Pass → Nat
  | .first => 1
  | .last => 0

/-- A mark that ends something: the mark at the front of the text, and what follows it. -/
abbrev Mark := List Char → Option (List Char × List Char)

/-- White space and then the given character. -/
def blankThen (mark : Char) : Mark := fun text =>
  match splitBlank text with
  | (_, []) => none
  | (blank, c :: rest) => if c = mark then some (blank ++ [c], rest) else none

/-- The end of a comment: two hyphens and `>`, with white space between. -/
def commentEnd : Mark
  | '-' :: '-' :: rest => (blankThen '>' rest).map fun mark => ('-' :: '-' :: mark.1, mark.2)
  | _ => none

/-- The short end of a marked section: a bracket and `>`, with white space between. -/
def shortSectionEnd : Mark
  | ']' :: rest => (blankThen '>' rest).map fun mark => (']' :: mark.1, mark.2)
  | _ => none

/-- The long end of a marked section: two brackets and `>`, with white space between. -/
def longSectionEnd : Mark
  | ']' :: rest => do
    let (inner, rest) ← blankThen ']' rest
    let (outer, rest) ← blankThen '>' rest
    pure (']' :: inner ++ outer, rest)
  | _ => none

/-- The text before the first place where the mark stands, and the mark. Marks end with `>`, so a
text without one need not be gone through. -/
def splitAtMark? (mark : Mark) (text : List Char) : Option (List Char × List Char) :=
  if text.contains '>' then
    let (before, rest) := splitRun (fun c rest => (mark (c :: rest)).isNone) text
    (mark rest).map fun found => (before, found.1)
  else none

/-- A mark cannot stand in a text without `>`. -/
def Mark.NeedsEnd (mark : Mark) : Prop :=
  ∀ text : List Char, '>' ∉ text → mark text = none

theorem blankThen_needsEnd : Mark.NeedsEnd (blankThen '>') := by
  intro text hEnd
  have hJoin := splitBlank_append text
  unfold blankThen
  split
  · rfl
  · rename_i blank c rest hSplit
    rw [hSplit] at hJoin
    have hMem : c ∈ text := by
      rw [← hJoin]
      simp
    rw [if_neg]
    rintro rfl
    exact hEnd hMem

theorem blankThen_suffix {mark : Char} {text : List Char} {found : List Char × List Char}
    (hMark : blankThen mark text = some found) : found.1 ++ found.2 = text := by
  have hJoin := splitBlank_append text
  unfold blankThen at hMark
  split at hMark
  · simp at hMark
  · rename_i blank c rest hSplit
    rw [hSplit] at hJoin
    split at hMark
    · cases hMark
      simpa using hJoin
    · simp at hMark

theorem commentEnd_needsEnd : Mark.NeedsEnd commentEnd := by
  intro text hEnd
  unfold commentEnd
  split
  · rename_i rest
    have hRest : '>' ∉ rest := fun hMem => hEnd (by simp [hMem])
    rw [blankThen_needsEnd rest hRest]
    rfl
  · rfl

theorem shortSectionEnd_needsEnd : Mark.NeedsEnd shortSectionEnd := by
  intro text hEnd
  unfold shortSectionEnd
  split
  · rename_i rest
    have hRest : '>' ∉ rest := fun hMem => hEnd (by simp [hMem])
    rw [blankThen_needsEnd rest hRest]
    rfl
  · rfl

theorem longSectionEnd_needsEnd : Mark.NeedsEnd longSectionEnd := by
  intro text hEnd
  unfold longSectionEnd
  split
  · rename_i rest
    cases hInner : blankThen ']' rest with
    | none => rfl
    | some inner =>
      have hJoin := blankThen_suffix hInner
      have hRest : '>' ∉ inner.2 := fun hMem => hEnd (by simp [← hJoin, hMem])
      simp [blankThen_needsEnd inner.2 hRest]
  · rfl

/-- The test for a `>` only saves work: where the mark needs one and there is none, the search would
find nothing either. -/
theorem splitAtMark?_eq {mark : Mark} (hNeeds : mark.NeedsEnd) (text : List Char) :
    splitAtMark? mark text =
      (mark (splitRun (fun c rest => (mark (c :: rest)).isNone) text).2).map fun found =>
        ((splitRun (fun c rest => (mark (c :: rest)).isNone) text).1, found.1) := by
  unfold splitAtMark?
  split
  · rfl
  · rename_i hEnd
    rw [List.contains_iff_mem] at hEnd
    have hJoin := splitRun_append (fun c rest => (mark (c :: rest)).isNone) text
    rw [hNeeds _ fun hMem => hEnd (by rw [← hJoin]; simp [hMem])]
    rfl

/-- A letter of a name stands for the character too if this is the letter in either case or a
character that differs from it in case alone. The letter is a small one. -/
def matchesLetter (letter c : Char) : Bool :=
  c.toLower = letter ||
    (letter = 'i' && (c = '\u0130' || c = '\u0131')) ||
    (letter = 's' && c = '\u017F') ||
    (letter = 'k' && c = '\u212A')

/-- What follows a word at the front of the text, in any case. -/
def afterWord? : List Char → List Char → Option (List Char)
  | [], text => some text
  | _ :: _, [] => none
  | letter :: word, c :: rest => if matchesLetter letter c then afterWord? word rest else none

/-- The text begins with what looks like the end tag of an element of that name. -/
def looksLikeEndOf (name : List Char) : List Char → Bool
  | '<' :: '/' :: rest =>
    match afterWord? name (splitBlank rest).2 with
    | some rest => (blankThen '>' rest).isSome
    | none => false
  | _ => false

def continuesEndName (c : Char) : Bool :=
  isLetter c || c.isDigit || c = '-' || c = '.' || c = ':' || c = '_'

/-- The name of an end tag that holds a name and white space alone. The body stands between `</`
and `>`. -/
def plainEndName? (body : List Char) : Option (List Char) :=
  match (splitBlank body).2 with
  | [] => none
  | c :: rest =>
    if isLetter c then
      let (name, rest) := splitRun (fun c _ => continuesEndName c) rest
      if allBlank rest then some (c :: name) else none
    else none

/-- What the next token is. Each step is given a character and the text behind it; `more` is the
part of this text that belongs to the token too. -/
inductive Step where
  /-- A token. From here on the text is the body of the element named by `rawText`, if any. -/
  | token (content : Content) (more : List Char) (rawText : Option (List Char))
  /-- A token at which the pass stops. -/
  | lastToken (content : Content) (more : List Char)
  /-- The pass stops here. -/
  | stop
  /-- The text is no markup. -/
  | reject (reason : Rejection)

/-- Markup that does not end, behind its `<`. In the last pass it is text up to the next `>`, or
else up to the next `<`, or else this one character. -/
def unfinished (pass : Pass) (rest : List Char) : Step :=
  match pass with
  | .first => .stop
  | .last =>
    match splitAtFirst? '>' rest with
    | some (before, _) => .token .text (before ++ ['>']) none
    | none =>
      match splitAtFirst? '<' rest with
      | some (before, _) => .token .text before none
      | none => .token .text [] none

def hasRawBody (name : List Char) : Bool :=
  name = "script".toList || name = "style".toList

/-- The token of an opening tag, behind its `<`. Without one of the characters that end the reading
of a tag there is no need to read it. -/
def openTagStep (pass : Pass) (rest : List Char) : Step :=
  if rest.contains '>' || rest.contains '\x00' then
    match readOpenTag rest with
    | .complete tag _ =>
      let name := lowercase tag.name
      .token (.openTag tag) tag.sourceTail
        (if hasRawBody name && !tag.selfClosed then some name else none)
    | .broken name => .token .text name none
    | .incomplete => unfinished pass rest
  else unfinished pass rest

/-- The test for the characters that end the reading of a tag only saves work. -/
theorem openTagStep_eq (pass : Pass) (rest : List Char) :
    openTagStep pass rest =
      match readOpenTag rest with
      | .complete tag _ =>
        .token (.openTag tag) tag.sourceTail
          (if hasRawBody (lowercase tag.name) && !tag.selfClosed then some (lowercase tag.name)
          else none)
      | .broken name => .token .text name none
      | .incomplete => unfinished pass rest := by
  unfold openTagStep
  split
  · rfl
  · rename_i hNeither
    simp only [Bool.or_eq_true, List.contains_iff_mem, not_or] at hNeither
    rw [readOpenTag_eq_incomplete hNeither.1 hNeither.2]

/-- The token of an end tag. `rest` begins with its slash, `text` stands behind that. -/
def endTagStep (pass : Pass) (rest text : List Char) : Step :=
  match splitAtFirst? '>' text with
  | none => unfinished pass rest
  | some (body, _) =>
    let more := '/' :: body ++ ['>']
    match plainEndName? body with
    | some name => .token (.closeTag name) more none
    | none =>
      match readTagName? body with
      | some (name, _) => .token (.closeTag name) more none
      | none =>
        if body.isEmpty then .token .ignored more none
        else .token (.comment body) more none

def longSections : List (List Char) :=
  ["temp".toList, "cdata".toList, "ignore".toList, "include".toList, "rcdata".toList]

def shortSections : List (List Char) :=
  ["if".toList, "else".toList, "endif".toList]

def continuesSectionName (c : Char) : Bool :=
  isLetter c || c.isDigit || c = '-' || c = '_' || c = '.'

/-- The token of a marked section. `rest` begins with its `![`, `text` stands behind that. -/
def sectionStep (pass : Pass) (rest text : List Char) : Step :=
  match text with
  | [] => unfinished pass rest
  | c :: tail =>
    if !isLetter c then .reject (.missingSectionName (('<' :: rest).take 20))
    else
      let (name, behindName) := splitRun (fun c _ => continuesSectionName c) tail
      let (blank, behindBlank) := splitBlank behindName
      if behindBlank.isEmpty then unfinished pass rest
      else
        let key := (c :: name).map Char.toLower
        let mark? := if longSections.contains key then some longSectionEnd
          else if shortSections.contains key then some shortSectionEnd
          else none
        match mark? with
        | none => .reject (.unknownSection (c :: name ++ blank))
        | some mark =>
          match splitAtMark? mark text with
          | some (body, found) => .token (.marked body) ('!' :: '[' :: body ++ found) none
          | none => unfinished pass rest

def beginsDoctype (text : List Char) : Bool :=
  (text.take 7).map Char.toLower = "doctype".toList

/-- The token that begins with `<`. `rest` stands behind it. -/
def markupStep (pass : Pass) (rest : List Char) : Step :=
  match rest with
  | [] => .stop
  | '/' :: text => endTagStep pass rest text
  | '!' :: '-' :: '-' :: text =>
    match splitAtMark? commentEnd text with
    | some (body, found) =>
      .token (.comment body) ('!' :: '-' :: '-' :: body ++ found) none
    | none => unfinished pass rest
  | '?' :: text =>
    match splitAtFirst? '>' text with
    | some (body, _) => .token (.instruction body) ('?' :: body ++ ['>']) none
    | none => unfinished pass rest
  | '!' :: '[' :: text => sectionStep pass rest text
  | '!' :: text =>
    if beginsDoctype text then
      match splitAtFirst? '>' (text.drop 7) with
      | some (body, _) =>
        let declaration := text.take 7 ++ body
        .token (.doctype declaration) ('!' :: declaration ++ ['>']) none
      | none => unfinished pass rest
    else
      match splitAtFirst? '>' text with
      | some (body, _) => .token (.comment body) ('!' :: body ++ ['>']) none
      | none => unfinished pass rest
  | c :: _ => if isLetter c then openTagStep pass rest else .token .text [] none

/-- The numeral of a character reference at the front of the text behind `&#`. It ends before a
character that is no hexadecimal digit, and the text does not end with it. -/
def numericReference? (text : List Char) : Option Numeral :=
  match Numeral.read? text with
  | none => none
  | some numeral =>
    match text.drop numeral.source.length with
    | [] => none
    | c :: _ => if isHexDigit c then none else some numeral

/-- A semicolon that ends a reference, if one is at the front of the text. -/
def semicolon (text : List Char) : List Char :=
  if text.head? = some ';' then [';'] else []

/-- A character that may continue the name of a reference in running text. -/
def continuesReference (c : Char) : Bool :=
  isLetter c || c.isDigit || c = '-' || c = '.'

/-- The name of a character reference at the front of the text behind an ampersand. At the end of
the text the name ends before the last hyphen or point in it. -/
def referenceName? (text : List Char) : Option (List Char) :=
  match text with
  | [] => none
  | c :: rest =>
    if isLetter c then
      match splitRun (fun c _ => continuesReference c) rest with
      | (name, _ :: _) => some (c :: name)
      | (name, []) =>
        match name.reverse.dropWhile (fun c => c ≠ '-' ∧ c ≠ '.') with
        | [] => none
        | _ :: front => some (c :: front.reverse)
    else none

/-- The token that begins with an ampersand. `rest` stands behind it. -/
def referenceStep (pass : Pass) (rest : List Char) : Step :=
  match rest with
  | [] => .stop
  | '#' :: text =>
    match numericReference? text with
    | some numeral =>
      let source := numeral.source
      .token (.numeric numeral) ('#' :: source ++ semicolon (text.drop source.length)) none
    | none => if text.contains ';' then .lastToken .text ['#'] else .stop
  | c :: behind =>
    if isLetter c then
      match referenceName? rest with
      | some name => .token (.named name) (name ++ semicolon (rest.drop name.length)) none
      | none => if behind.isEmpty && pass = .last then .lastToken .ignored [] else .stop
    else .token .text [] none

/-- The next token of the body of a script or a style sheet. -/
def rawTextStep (name : List Char) (c : Char) (rest : List Char) : Step :=
  if looksLikeEndOf name (c :: rest) then
    match rest with
    | [] => .stop
    | slash :: text =>
      match splitAtFirst? '>' text with
      | none => .stop
      | some (body, _) =>
        let more := slash :: body ++ ['>']
        match plainEndName? body with
        | some found =>
          if lowercase found = name then .token (.closeTag found) more none
          else .token .text more (some name)
        | none => .token .text more (some name)
  else
    match splitRun (fun c rest => !looksLikeEndOf name (c :: rest)) rest with
    | (_, []) => .stop
    | (more, _) => .token .text more (some name)

/-- A run of text up to the next `<` or ampersand, behind its first character. -/
def textStep (rest : List Char) : Step :=
  .token .text (splitRun (fun c _ => c != '<' && c != '&') rest).1 none

/-- The next token of a text that begins with `c` and goes on with `rest`. -/
def nextStep (pass : Pass) (rawText : Option (List Char)) (c : Char) (rest : List Char) : Step :=
  match rawText with
  | some name => rawTextStep name c rest
  | none =>
    if c = '<' then markupStep pass rest
    else if c = '&' then referenceStep pass rest
    else textStep rest

/-- The tokens of a text. The part that is dropped comes last, and reading may end early because
the text is no markup. -/
structure Scan where
  tokens : List Token
  dropped : List Char
  rejection : Option Rejection
  deriving DecidableEq

/-- What is left where the last pass stops. -/
def scanEnd (done : List Token) (rawText : Option (List Char)) (text : List Char) : Scan :=
  match rawText, text with
  | none, _ :: _ => ⟨(⟨.text, text⟩ :: done).reverse, [], none⟩
  | _, _ => ⟨done.reverse, text, none⟩

/-- `scan` behind the tokens already read, last first. -/
def scanOnto (done : List Token) (pass : Pass) (rawText : Option (List Char))
    (text : List Char) : Scan :=
  match text with
  | [] => ⟨done.reverse, [], none⟩
  | c :: rest =>
    match nextStep pass rawText c rest with
    | .token content more rawText =>
      scanOnto (⟨content, c :: more⟩ :: done) pass rawText (rest.drop more.length)
    | .lastToken content more =>
      match pass with
      | .first => scanOnto (⟨content, c :: more⟩ :: done) .last rawText (rest.drop more.length)
      | .last => scanEnd (⟨content, c :: more⟩ :: done) rawText (rest.drop more.length)
    | .stop =>
      match pass with
      | .first => scanOnto done .last rawText (c :: rest)
      | .last => scanEnd done rawText (c :: rest)
    | .reject reason => ⟨done.reverse, c :: rest, some reason⟩
termination_by 2 * text.length + pass.left
decreasing_by all_goals simp only [List.length_cons, List.length_drop, Pass.left]; omega

def scan (text : List Char) : Scan :=
  scanOnto [] .first none text

end AccessibleMarkup.Markup
