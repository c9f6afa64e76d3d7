import AccessibleMarkup.Markup.Position

/-!
A text that is looked into at many places. What stands behind an offset and where a line begins are
found without going through the text again.
-/
namespace AccessibleMarkup.Markup

/-- The suffixes of a text, longest first, behind those already found. The empty one is left
out. -/
def suffixesOnto (found : Array (List Char)) : List Char → Array (List Char)
  | [] => found
  | text@(_ :: rest) => suffixesOnto (found.push text) rest

/-- The suffix at an offset is what stands behind the offset, and beyond the end nothing does. -/
theorem getElem?_suffixesOnto (found : Array (List Char)) (text : List Char) (index : Nat) :
    ((suffixesOnto found text)[index]?).getD [] =
      if index < found.size then (found[index]?).getD []
      else text.drop (index - found.size) := by
  induction text generalizing found with
  | nil =>
    simp only [suffixesOnto, List.drop_nil]
    split
    · rfl
    · rename_i hIndex
      simp [Array.getElem?_eq_none (Nat.le_of_not_lt hIndex)]
  | cons c rest ih =>
    simp only [suffixesOnto, ih, Array.size_push]
    rcases Nat.lt_trichotomy index found.size with hLess | hSame | hMore
    · simp [hLess, Nat.lt_succ_of_lt hLess, Array.getElem_push_lt]
    · subst hSame
      simp
    · have hStep : index - found.size = index - (found.size + 1) + 1 := by omega
      rw [if_neg (by omega), if_neg (by omega), hStep, List.drop_succ_cons]

/-- A text, what stands behind each of its offsets, and the offsets at which its lines begin. -/
structure Buffer where
  text : List Char
  suffixes : Array (List Char)
  lineStarts : Array Nat
  suffixes_eq : ∀ offset : Nat, (suffixes[offset]?).getD [] = text.drop offset
  lineStarts_eq : lineStarts.toList = lineOffsets text

namespace Buffer

def ofText (text : List Char) : Buffer :=
  { text := text
    suffixes := suffixesOnto #[] text
    lineStarts := (lineOffsets text).toArray
    suffixes_eq := fun offset => by simp [getElem?_suffixesOnto]
    lineStarts_eq := by simp }

def behind (buffer : Buffer) (offset : Nat) : List Char :=
  (buffer.suffixes[offset]?).getD []

/-- The offset at which a line begins. Lines count from one. -/
def lineStart? (buffer : Buffer) (line : Nat) : Option Nat :=
  buffer.lineStarts[line - 1]?

theorem behind_eq_drop (buffer : Buffer) (offset : Nat) :
    buffer.behind offset = buffer.text.drop offset :=
  buffer.suffixes_eq offset

/-- A buffer finds the line that counting through the text would find. -/
theorem lineStart?_eq (buffer : Buffer) (line : Nat) :
    buffer.lineStart? line = (lineOffsets buffer.text)[line - 1]? := by
  rw [lineStart?, ← buffer.lineStarts_eq, Array.getElem?_toList]

@[simp] theorem text_ofText (text : List Char) : (ofText text).text = text := rfl

end Buffer

end AccessibleMarkup.Markup
