/-!
Places in a text: by line and column, as a reader of the text counts them, and by offset. Only a
line feed ends a line. The two agree: the offset of a line's start plus the column is the offset.
-/
namespace AccessibleMarkup.Markup

/-- A place in a text. Lines count from one, columns from zero. -/
structure Position where
  line : Nat
  column : Nat
  deriving DecidableEq

namespace Position

def start : Position := ⟨1, 0⟩

def next (position : Position) (c : Char) : Position :=
  if c = '\n' then ⟨position.line + 1, 0⟩ else ⟨position.line, position.column + 1⟩

def advance (position : Position) (piece : List Char) : Position :=
  piece.foldl next position

@[simp] theorem advance_append (position : Position) (first second : List Char) :
    position.advance (first ++ second) = (position.advance first).advance second := by
  simp [advance]

end Position

/-- `lineOffsets` behind `offset` characters and the offsets found there, last first. -/
def lineOffsetsOnto (found : List Nat) (offset : Nat) : List Char → List Nat
  | [] => found.reverse
  | c :: rest =>
    lineOffsetsOnto (if c = '\n' then (offset + 1) :: found else found) (offset + 1) rest

def lineOffsets (text : List Char) : List Nat :=
  lineOffsetsOnto [0] 0 text

end AccessibleMarkup.Markup
