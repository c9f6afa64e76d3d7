import AccessibleMarkup.Text.Blank
import AccessibleMarkup.Text.Span

/-!
Attributes as they are written in an opening tag. A quote opens a value only behind an equals sign,
an attribute may follow a quoted value without white space, and a slash between attributes means
nothing. Whatever stands in a tag is read as some sequence of attributes, and the parts of an
attribute join to the text it was read from.
-/
namespace AccessibleMarkup.Markup

open AccessibleMarkup.Text

/-- A value as it stands behind the equals sign. -/
inductive WrittenValue where
  | bare (text : List Char)
  | quoted (mark : Char) (text : List Char)
  deriving DecidableEq

namespace WrittenValue

def text : WrittenValue → List Char
  | .bare text => text
  | .quoted _ text => text

def source : WrittenValue → List Char
  | .bare text => text
  | .quoted mark text => mark :: text ++ [mark]

end WrittenValue

/-- What follows the name of an attribute that has a value. The lead holds the equals signs and
the white space on both sides of them. -/
structure Assignment where
  lead : List Char
  value : WrittenValue
  deriving DecidableEq

def Assignment.source (assignment : Assignment) : List Char :=
  assignment.lead ++ assignment.value.source

/-- An attribute as it is written. The gap is what separates it from the next one. -/
structure WrittenAttribute where
  name : List Char
  assignment : Option Assignment
  gap : List Char
  deriving DecidableEq

namespace WrittenAttribute

/-- The name and the value as they are written, without the gap. -/
def body (written : WrittenAttribute) : List Char :=
  written.name ++ (written.assignment.map Assignment.source).getD []

def source (written : WrittenAttribute) : List Char :=
  written.body ++ written.gap

/-- The value without its quotes, `none` for an attribute without one. -/
def value? (written : WrittenAttribute) : Option (List Char) :=
  written.assignment.map (·.value.text)

end WrittenAttribute

def isQuote (c : Char) : Bool :=
  c = '\x27' || c = '"'

/-- A character behind which an attribute may begin. -/
def admitsAttribute (c : Char) : Bool :=
  isQuote c || isBlank c || c = '/'

/-- A character that may begin the name of an attribute. An equals sign may. -/
def beginsName (c : Char) : Bool :=
  !(isBlank c || c = '/' || c = '>')

/-- A character that may continue the name of an attribute. -/
def continuesName (c : Char) : Bool :=
  !(isBlank c || c = '/' || c = '=' || c = '>')

def continuesBareValue (c : Char) : Bool :=
  !(isBlank c || c = '>')

/-- White space at the front of the text, and what follows it. -/
def splitBlank (text : List Char) : List Char × List Char :=
  splitRun (fun c _ => isBlank c) text

/-- The separators at the front of the text, and what follows them. A slash that ends the tag is
not one of them. -/
def splitGap (text : List Char) : List Char × List Char :=
  splitRun (fun c rest => isBlank c || (c = '/' && rest.head? != some '>')) text

/-- A value without quotes at the front of the text, and what follows it. It may be empty. -/
def splitBareValue (text : List Char) : List Char × List Char :=
  splitRun (fun c _ => continuesBareValue c) text

/-- The value at the front of the text and what follows it. A quote that is never closed begins no
value. -/
def readValue? (text : List Char) : Option (WrittenValue × List Char) :=
  match text with
  | [] => some (.bare [], [])
  | c :: rest =>
    if isQuote c then
      (splitAtFirst? c rest).map fun read => (.quoted c read.1, read.2)
    else
      let (value, rest) := splitBareValue text
      some (.bare value, rest)

/-- The equals signs and the white space around them at the front of the text, in three parts, and
what follows them. There is at least one equals sign. -/
def splitLead? (text : List Char) :
    Option ((List Char × List Char × List Char) × List Char) :=
  let (before, rest) := splitBlank text
  let (signs, rest) := splitRun (fun c _ => c = '=') rest
  let (behind, rest) := splitBlank rest
  if signs.isEmpty then none else some ((before, signs, behind), rest)

/-- An empty value or a value that begins with an equals sign, for a text whose value would begin
with a quote that is never closed. One character of the lead is given back to what follows: the
last blank behind the equals signs, or the last of several equals signs. -/
def readBeforeQuote? (before signs behind rest : List Char) :
    Option (Assignment × List Char) :=
  match behind.getLast? with
  | some blank => some (⟨before ++ signs ++ behind.dropLast, .bare []⟩, blank :: rest)
  | none =>
    if 2 ≤ signs.length then
      let (value, rest) := splitBareValue ('=' :: rest)
      some (⟨before ++ signs.dropLast, .bare value⟩, rest)
    else none

/-- The assignment at the front of the text behind a name, and what follows it. -/
def readAssignment? (text : List Char) : Option (Assignment × List Char) :=
  match splitLead? text with
  | none => none
  | some ((before, signs, behind), rest) =>
    match readValue? rest with
    | some (value, rest) => some (⟨before ++ signs ++ behind, value⟩, rest)
    | none => readBeforeQuote? before signs behind rest

/-- The attribute at the front of the text that follows the character `before`, and what follows
the attribute. -/
def readAttribute? (before : Char) (text : List Char) :
    Option (WrittenAttribute × List Char) :=
  match text with
  | [] => none
  | c :: rest =>
    if admitsAttribute before && beginsName c then
      let (name, rest) := splitRun (fun c _ => continuesName c) rest
      match readAssignment? rest with
      | some (assignment, rest) =>
        let (gap, rest) := splitGap rest
        some (⟨c :: name, some assignment, gap⟩, rest)
      | none =>
        let (gap, rest) := splitGap rest
        some (⟨c :: name, none, gap⟩, rest)
    else none

theorem splitBlank_append (text : List Char) : (splitBlank text).1 ++ (splitBlank text).2 = text :=
  splitRun_append _ text

theorem splitGap_append (text : List Char) : (splitGap text).1 ++ (splitGap text).2 = text :=
  splitRun_append _ text

theorem splitBareValue_append (text : List Char) :
    (splitBareValue text).1 ++ (splitBareValue text).2 = text :=
  splitRun_append _ text

/-- A value is read off the front of the text as it is written there. -/
theorem source_append_of_readValue? {text rest : List Char} {value : WrittenValue}
    (hRead : readValue? text = some (value, rest)) : value.source ++ rest = text := by
  unfold readValue? at hRead
  split at hRead
  · simp only [Option.some.injEq, Prod.mk.injEq] at hRead
    obtain ⟨rfl, rfl⟩ := hRead
    rfl
  · rename_i c tail
    split at hRead
    · obtain ⟨⟨inner, behind⟩, hSplit, hEq⟩ := Option.map_eq_some_iff.1 hRead
      simp only [Prod.mk.injEq] at hEq
      obtain ⟨rfl, rfl⟩ := hEq
      rw [splitAtFirst?_eq_some hSplit]
      simp [WrittenValue.source]
    · simp only [Option.some.injEq, Prod.mk.injEq] at hRead
      obtain ⟨rfl, rfl⟩ := hRead
      exact splitBareValue_append (c :: tail)

/-- The three parts of a lead stand at the front of the text, one behind the other. -/
theorem append_of_splitLead? {text before signs behind rest : List Char}
    (hLead : splitLead? text = some ((before, signs, behind), rest)) :
    before ++ signs ++ behind ++ rest = text := by
  simp only [splitLead?] at hLead
  split at hLead
  · simp at hLead
  · simp only [Option.some.injEq, Prod.mk.injEq] at hLead
    obtain ⟨⟨rfl, rfl, rfl⟩, rfl⟩ := hLead
    rw [List.append_assoc, splitBlank_append, List.append_assoc, splitRun_append,
      splitBlank_append]

theorem signs_of_splitLead? {text before signs behind rest : List Char}
    (hLead : splitLead? text = some ((before, signs, behind), rest)) :
    ∀ c ∈ signs, c = '=' := by
  simp only [splitLead?] at hLead
  split at hLead
  · simp at hLead
  · simp only [Option.some.injEq, Prod.mk.injEq] at hLead
    obtain ⟨⟨-, rfl, -⟩, -⟩ := hLead
    intro c hMem
    simpa using forall_mem_splitRun (fun c => c = '=') hMem

/-- Where a character of the lead is given back, nothing is lost: the assignment and what is left
still make up the lead and the text behind it. -/
theorem source_append_of_readBeforeQuote? {before signs behind rest tail : List Char}
    {assignment : Assignment} (hSigns : ∀ c ∈ signs, c = '=')
    (hRead : readBeforeQuote? before signs behind rest = some (assignment, tail)) :
    assignment.source ++ tail = before ++ signs ++ behind ++ rest := by
  unfold readBeforeQuote? at hRead
  split at hRead
  · rename_i blank hLast
    simp only [Option.some.injEq, Prod.mk.injEq] at hRead
    obtain ⟨rfl, rfl⟩ := hRead
    obtain ⟨front, rfl⟩ := List.getLast?_eq_some_iff.1 hLast
    simp [Assignment.source, WrittenValue.source]
  · rename_i hNone
    split at hRead
    · rename_i hMany
      simp only [Option.some.injEq, Prod.mk.injEq] at hRead
      obtain ⟨rfl, rfl⟩ := hRead
      have hBehind : behind = [] := List.getLast?_eq_none_iff.1 hNone
      have hNonempty : signs ≠ [] := by
        intro hEmpty
        simp [hEmpty] at hMany
      have hSign : signs.getLast hNonempty = '=' := hSigns _ (List.getLast_mem hNonempty)
      have hJoin := List.dropLast_concat_getLast hNonempty
      rw [hSign] at hJoin
      simp only [Assignment.source, WrittenValue.source, List.append_assoc, hBehind,
        List.nil_append, splitBareValue_append]
      rw [← List.singleton_append, ← List.append_assoc signs.dropLast, hJoin]
    · simp at hRead

/-- An assignment is read off the front of the text as it is written there. -/
theorem source_append_of_readAssignment? {text rest : List Char} {assignment : Assignment}
    (hRead : readAssignment? text = some (assignment, rest)) :
    assignment.source ++ rest = text := by
  unfold readAssignment? at hRead
  split at hRead
  · simp at hRead
  · rename_i before signs behind tail hLead
    split at hRead
    · rename_i value behindValue hValue
      simp only [Option.some.injEq, Prod.mk.injEq] at hRead
      obtain ⟨rfl, rfl⟩ := hRead
      rw [← append_of_splitLead? hLead, ← source_append_of_readValue? hValue]
      simp [Assignment.source]
    · rw [source_append_of_readBeforeQuote? (signs_of_splitLead? hLead) hRead,
        append_of_splitLead? hLead]

/-- An attribute is the text it was read from. -/
theorem source_append_of_readAttribute? {before : Char} {text rest : List Char}
    {written : WrittenAttribute} (hRead : readAttribute? before text = some (written, rest)) :
    written.source ++ rest = text := by
  unfold readAttribute? at hRead
  split at hRead
  · simp at hRead
  · rename_i c tail
    split at hRead
    · have hName := splitRun_append (fun c _ => continuesName c) tail
      simp only at hRead
      split at hRead
      · rename_i assignment behind hAssignment
        simp only [Option.some.injEq, Prod.mk.injEq] at hRead
        obtain ⟨rfl, rfl⟩ := hRead
        have hJoin := source_append_of_readAssignment? hAssignment
        simp only [WrittenAttribute.source, WrittenAttribute.body, Option.map_some,
          Option.getD_some, List.append_assoc, splitGap_append, hJoin, List.cons_append, hName]
      · simp only [Option.some.injEq, Prod.mk.injEq] at hRead
        obtain ⟨rfl, rfl⟩ := hRead
        simp only [WrittenAttribute.source, WrittenAttribute.body, Option.map_none,
          Option.getD_none, List.append_nil, List.append_assoc, splitGap_append,
          List.cons_append, hName]
    · simp at hRead

theorem name_ne_nil_of_readAttribute? {before : Char} {text rest : List Char}
    {written : WrittenAttribute} (hRead : readAttribute? before text = some (written, rest)) :
    written.name ≠ [] := by
  unfold readAttribute? at hRead
  split at hRead
  · simp at hRead
  · split at hRead
    · simp only at hRead
      split at hRead <;> simp only [Option.some.injEq, Prod.mk.injEq] at hRead <;>
        obtain ⟨rfl, rfl⟩ := hRead <;> simp
    · simp at hRead

/-- Every attribute takes something off the text, since its name is not empty. The reading of all
attributes ends by this. -/
theorem length_lt_of_readAttribute? {before : Char} {text rest : List Char}
    {written : WrittenAttribute} (hRead : readAttribute? before text = some (written, rest)) :
    rest.length < text.length := by
  have hJoin := congrArg List.length (source_append_of_readAttribute? hRead)
  have hName := List.length_pos_iff.2 (name_ne_nil_of_readAttribute? hRead)
  simp only [WrittenAttribute.source, WrittenAttribute.body, List.length_append] at hJoin
  omega

def lastOr (before : Char) (text : List Char) : Char :=
  text.getLast?.getD before

/-- `readAttributes` behind the attributes already read, last first. -/
def readAttributesOnto (done : List WrittenAttribute) (before : Char) (text : List Char) :
    List WrittenAttribute × List Char :=
  match _hRead : readAttribute? before text with
  | none => (done.reverse, text)
  | some (written, rest) =>
    readAttributesOnto (written :: done) (lastOr before written.source) rest
termination_by text.length
decreasing_by exact length_lt_of_readAttribute? _hRead

/-- The attributes at the front of the text that follows the character `before`, and the text
behind them, at the front of which no attribute begins. -/
def readAttributes (before : Char) (text : List Char) : List WrittenAttribute × List Char :=
  readAttributesOnto [] before text

/-- Attributes that were read before stand in front of those that are still to be read. -/
theorem readAttributesOnto_eq (done : List WrittenAttribute) (before : Char) (text : List Char) :
    readAttributesOnto done before text =
      (done.reverse ++ (readAttributes before text).1, (readAttributes before text).2) := by
  induction hLength : text.length using Nat.strongRecOn generalizing done before text with
  | ind length ih =>
    unfold readAttributes
    rw [readAttributesOnto, readAttributesOnto]
    split
    · simp
    · rename_i written rest hRead
      have hShorter := length_lt_of_readAttribute? hRead
      rw [ih rest.length (by omega) (written :: done) _ rest rfl,
        ih rest.length (by omega) [written] _ rest rfl]
      simp

theorem readAttributes_of_none {before : Char} {text : List Char}
    (hRead : readAttribute? before text = none) : readAttributes before text = ([], text) := by
  unfold readAttributes
  rw [readAttributesOnto]
  split
  · rfl
  · simp_all

/-- Attributes are read one after the other, each behind the last character of the one before. -/
theorem readAttributes_of_some {before : Char} {text rest : List Char}
    {written : WrittenAttribute} (hRead : readAttribute? before text = some (written, rest)) :
    readAttributes before text =
      (written :: (readAttributes (lastOr before written.source) rest).1,
        (readAttributes (lastOr before written.source) rest).2) := by
  unfold readAttributes
  rw [readAttributesOnto]
  split
  · simp_all
  · rename_i found behind hFound
    rw [hRead] at hFound
    simp only [Option.some.injEq, Prod.mk.injEq] at hFound
    obtain ⟨rfl, rfl⟩ := hFound
    rw [readAttributesOnto_eq]
    simp [readAttributes]

/-- The attributes and what follows them join to the text they were read from. -/
theorem readAttributes_append (before : Char) (text : List Char) :
    (readAttributes before text).1.flatMap WrittenAttribute.source ++
      (readAttributes before text).2 = text := by
  induction hLength : text.length using Nat.strongRecOn generalizing before text with
  | ind length ih =>
    cases hRead : readAttribute? before text with
    | none => simp [readAttributes_of_none hRead]
    | some read =>
      obtain ⟨written, rest⟩ := read
      have hShorter := length_lt_of_readAttribute? hRead
      rw [readAttributes_of_some hRead]
      simp only [List.flatMap_cons, List.append_assoc]
      rw [ih rest.length (by omega) _ rest rfl]
      exact source_append_of_readAttribute? hRead

end AccessibleMarkup.Markup
