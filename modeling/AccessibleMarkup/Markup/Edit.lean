import AccessibleMarkup.Markup.Attribute
import AccessibleMarkup.Markup.Malformation
import AccessibleMarkup.Markup.OpenTag
import AccessibleMarkup.Text.Cursor
import AccessibleMarkup.Text.Lowercase

/-!
Editing markup as text. Edits are carried out from the last to the first, so that the offsets of
the ones before stay right; what stands between them comes out as it went in. One pass over the text
carries out all of them: a cursor goes along from edit to edit, and the result is the same as that
of one edit of the whole text after the other (`splice_eq`, `removeSpans?_eq`).
-/
namespace AccessibleMarkup.Markup

open AccessibleMarkup.Text

/-- A replacement of the text from `start` up to `stop`. -/
structure Edit where
  start : Nat
  stop : Nat
  replacement : List Char
  deriving DecidableEq

/-- The text between two offsets, cut where the text ends. -/
def slice (text : List Char) (start stop : Nat) : List Char :=
  (text.drop start).take (stop - start)

/-- Carries out edits in the given order, none of which may reach behind `limit`. -/
def spliceInOrder (limit : Nat) (buffer : List Char) :
    List Edit → Except Malformation (List Char)
  | [] => .ok buffer
  | edit :: rest =>
    if limit < edit.stop then
      .error (.overlappingEdits (String.ofList (slice buffer edit.start edit.stop)))
    else
      spliceInOrder edit.start
        (buffer.take edit.start ++ edit.replacement ++ buffer.drop edit.stop) rest

/-- `spliceInOrder` at a place in the text. -/
def spliceAt (limit : Nat) (cursor : Cursor) : List Edit → Except Malformation Cursor
  | [] => .ok cursor
  | edit :: rest =>
    let behind := cursor.moveTo edit.stop
    let replaced := behind.moveTo edit.start
    if limit < edit.stop then
      .error (.overlappingEdits
        (String.ofList (replaced.behind.take (edit.stop - edit.start))))
    else spliceAt edit.start (replaced.withBehind (edit.replacement ++ behind.behind)) rest

/-- The cursor only spares going through the text again: it yields what the offsets mean in the text
as a whole. -/
theorem text_spliceAt (limit : Nat) (cursor : Cursor) (edits : List Edit) :
    (spliceAt limit cursor edits).map Cursor.text =
      spliceInOrder limit cursor.text edits := by
  induction edits generalizing limit cursor with
  | nil => rfl
  | cons edit rest ih =>
    simp only [spliceAt, spliceInOrder]
    split
    · simp [Except.map, slice]
    · rw [ih]
      simp

/-- Edits with later ones first. Those that start at one place keep their order. -/
def lastFirst (edits : List Edit) : List Edit :=
  edits.mergeSort fun one other => other.start ≤ one.start

/-- The text with all edits carried out. -/
def splice (buffer : List Char) (edits : List Edit) : Except Malformation (List Char) :=
  (spliceAt buffer.length (.atEnd buffer) (lastFirst edits)).map Cursor.text

/-- Edits are carried out from the last to the first, so that no offset moves before it is used. -/
theorem splice_eq (buffer : List Char) (edits : List Edit) :
    splice buffer edits = spliceInOrder buffer.length buffer (lastFirst edits) := by
  rw [splice, text_spliceAt, Cursor.text_atEnd]

/-- An attribute and where its name and value stand in its tag. -/
structure PlacedAttribute where
  name : List Char
  value? : Option (List Char)
  start : Nat
  stop : Nat
  deriving DecidableEq

/-- Attributes that stand one behind the other from an offset on, behind those already placed,
last first. -/
def placeOnto (placed : List PlacedAttribute) (offset : Nat) :
    List WrittenAttribute → List PlacedAttribute
  | [] => placed.reverse
  | written :: rest =>
    placeOnto
      (⟨written.name, written.value?, offset, offset + written.body.length⟩ :: placed)
      (offset + written.source.length) rest

def withoutEnd (openTag : List Char) : List Char :=
  if openTag.getLast? = some '>' then openTag.dropLast else openTag

/-- The name at the front of a tag, with its `<`. It is empty for a text that begins no tag. -/
def tagStart (openTag : List Char) : List Char :=
  match openTag with
  | '<' :: rest =>
    match readTagName? rest with
    | some (name, _) => '<' :: name
    | none => []
  | _ => []

/-- The attributes of an opening tag in the order in which they stand there. Any text has them; one
that is no tag is read as the rest of one. -/
def attributesOf (openTag : List Char) : List PlacedAttribute :=
  let start := tagStart openTag
  let (gap, rest) := splitGap ((withoutEnd openTag).drop start.length)
  let before := lastOr '<' (start ++ gap)
  placeOnto [] (start.length + gap.length) (readAttributes before rest).1

/-- The tag carries an attribute of that name in any case, whatever its value. -/
def hasAttribute (openTag name : List Char) : Bool :=
  (attributesOf openTag).any fun placed => lowercase placed.name = lowercase name

/-- What follows a cut. A blank keeps it apart from what comes before unless the tag ends there or
white space stands there already. -/
def keptApart (rest : List Char) : List Char :=
  match rest with
  | [] => []
  | c :: _ => if isBlank c || c = '>' || c = '/' then rest else ' ' :: rest

/-- Cuts the text from `start` up to `stop` out of a tag, with the white space before it. There is
no place behind the text to cut at. -/
def cut? (openTag : List Char) (start stop : Nat) : Option (List Char) :=
  if openTag.length < start then none
  else some (trimEnd (openTag.take start) ++ keptApart (openTag.drop stop))

/-- Cuts spans, given as start and stop, out of a tag in the given order. -/
def cutInOrder? (openTag : List Char) : List (Nat × Nat) → Option (List Char)
  | [] => some openTag
  | (start, stop) :: rest => do
    let openTag ← cut? openTag start stop
    cutInOrder? openTag rest

/-- `cut?` at a place in the tag. -/
def cutAt? (cursor : Cursor) (start stop : Nat) : Option Cursor :=
  let behind := cursor.moveTo stop
  let cut := behind.moveTo start
  if cut.offset < start then none
  else some ((cut.trimBefore isBlank).withBehind (keptApart behind.behind))

theorem text_cutAt? (cursor : Cursor) (start stop : Nat) :
    (cutAt? cursor start stop).map Cursor.text = cut? cursor.text start stop := by
  have hOffset := Cursor.offset_moveTo (cursor.moveTo stop) start
  rw [Cursor.text_moveTo] at hOffset
  unfold cutAt? cut?
  by_cases hBehind : cursor.text.length < start
  · rw [if_pos hBehind, if_pos (by omega)]
    rfl
  · rw [if_neg hBehind, if_neg (by omega)]
    simp [trimEnd]

/-- `cutInOrder?` at a place in the tag. -/
def cutAtInOrder? (cursor : Cursor) : List (Nat × Nat) → Option Cursor
  | [] => some cursor
  | (start, stop) :: rest => do
    let cursor ← cutAt? cursor start stop
    cutAtInOrder? cursor rest

/-- Cuts at a cursor leave the text that they leave by their offsets alone. -/
theorem text_cutAtInOrder? (cursor : Cursor) (spans : List (Nat × Nat)) :
    (cutAtInOrder? cursor spans).map Cursor.text = cutInOrder? cursor.text spans := by
  induction spans generalizing cursor with
  | nil => rfl
  | cons span rest ih =>
    obtain ⟨start, stop⟩ := span
    have hCut := text_cutAt? cursor start stop
    simp only [cutAtInOrder?, cutInOrder?, ← hCut]
    cases cutAt? cursor start stop with
    | none => rfl
    | some next => exact ih next

/-- Spans with later ones first. Those that start at one place keep their order. -/
def lastSpanFirst (spans : List (Nat × Nat)) : List (Nat × Nat) :=
  spans.mergeSort fun one other => other.1 ≤ one.1

def removeSpans? (openTag : List Char) (spans : List (Nat × Nat)) : Option (List Char) :=
  (cutAtInOrder? (.atEnd openTag) (lastSpanFirst spans)).map Cursor.text

/-- Spans are cut out from the last to the first, so that no offset moves before it is used. -/
theorem removeSpans?_eq (openTag : List Char) (spans : List (Nat × Nat)) :
    removeSpans? openTag spans = cutInOrder? openTag (lastSpanFirst spans) := by
  rw [removeSpans?, text_cutAtInOrder?, Cursor.text_atEnd]

def removeAttributes? (openTag : List Char) (removed : List PlacedAttribute) :
    Option (List Char) :=
  removeSpans? openTag (removed.map fun placed => (placed.start, placed.stop))

end AccessibleMarkup.Markup
