import AccessibleMarkup.Markup.Buffer
import Mathlib.Data.List.DropRight
import Mathlib.Data.Set.Function
import Mathlib.Order.Interval.Set.Defs

/-! Positions against offsets. The reader of a text counts lines and columns piece by piece, the
offsets of the lines are taken from the whole text at once. Both lead to the same place: the start
of the line with the column behind it is the offset, however the text before it was cut up. -/
namespace AccessibleMarkup.Markup

/-- What stands behind the last line feed of a text, or all of it where there is none. -/
def lastLine (text : List Char) : List Char :=
  text.rtakeWhile (· ≠ '\n')

namespace Position

/-- The place of an offset in a text, from all that stands before it. -/
def ofOffset (text : List Char) (offset : Nat) : Position :=
  ⟨1 + (text.take offset).count '\n', (lastLine (text.take offset)).length⟩

/-- The place behind a piece of text, from the piece as a whole: its line feeds are counted, and
where there are any the column is counted anew from the last one. -/
def jump (position : Position) (piece : List Char) : Position :=
  if '\n' ∈ piece then ⟨position.line + piece.count '\n', (lastLine piece).length⟩
  else ⟨position.line, position.column + piece.length⟩

/-- One more character moves the place behind a piece to the next one. -/
theorem jump_concat (position : Position) (piece : List Char) (c : Char) :
    position.jump (piece ++ [c]) = (position.jump piece).next c := by
  by_cases hFeed : c = '\n'
  · by_cases hMem : '\n' ∈ piece
    · simp [jump, next, lastLine, hFeed, hMem, Nat.add_assoc]
    · simp [jump, next, lastLine, hFeed, hMem, List.count_eq_zero_of_not_mem hMem]
  · by_cases hMem : '\n' ∈ piece
    · simp [jump, next, lastLine, hFeed, Ne.symm hFeed, hMem]
    · simp [jump, next, hFeed, Ne.symm hFeed, hMem, Nat.add_assoc]

/-- Going on by a whole piece is going on by each of its characters. -/
theorem advance_eq_jump (position : Position) (piece : List Char) :
    position.advance piece = position.jump piece := by
  induction piece using List.reverseRecOn with
  | nil => rfl
  | append_singleton piece c ih =>
      rw [jump_concat, ← ih, advance_append]
      rfl

/-- The line behind a text counts its line feeds, and the column what stands behind the last one. -/
theorem jump_start (text : List Char) :
    start.jump text = ⟨1 + text.count '\n', (lastLine text).length⟩ := by
  by_cases hMem : '\n' ∈ text
  · simp [jump, start, hMem]
  · have hWhole : lastLine text = text := by
      refine List.rtakeWhile_eq_self_iff.2 fun c hChar => ?_
      simpa using ne_of_mem_of_not_mem hChar hMem
    simp [jump, start, hMem, hWhole, List.count_eq_zero_of_not_mem hMem]

/-- It does not matter how a text is cut up to be read. -/
theorem foldl_advance (position : Position) (pieces : List (List Char)) :
    pieces.foldl advance position = position.advance pieces.flatten := by
  induction pieces generalizing position with
  | nil => rfl
  | cons piece pieces ih => rw [List.foldl_cons, ih, List.flatten_cons, advance_append]

theorem start_advance_take (text : List Char) (offset : Nat) :
    start.advance (text.take offset) = ofOffset text offset := by
  rw [advance_eq_jump, jump_start, ofOffset]

end Position

/-- What one more character changes. The last line that was found begins where the column is counted
from, and as many lines are found as the position says. -/
theorem lineOffsetsOnto_cons (older : List Nat) (lineStart offset : Nat) (position : Position)
    (c : Char) (rest : List Char) (hLine : position.line = older.length + 1)
    (hColumn : lineStart + position.column = offset) :
    ∃ newer newStart,
      lineOffsetsOnto (lineStart :: older) offset (c :: rest) =
        lineOffsetsOnto (newStart :: newer) (offset + 1) rest ∧
      (position.next c).line = newer.length + 1 ∧
      newStart + (position.next c).column = offset + 1 := by
  by_cases hFeed : c = '\n'
  · refine ⟨lineStart :: older, offset + 1, ?_, ?_, ?_⟩
    · rw [lineOffsetsOnto, if_pos hFeed]
    · simp [Position.next, hFeed, hLine]
    · simp [Position.next, hFeed]
  · refine ⟨older, lineStart, ?_, ?_, ?_⟩
    · rw [lineOffsetsOnto, if_neg hFeed]
    · simp [Position.next, hFeed, hLine]
    · simp only [Position.next, hFeed, if_false]
      omega

/-- What is found behind a piece of text agrees with the position behind it. -/
theorem lineOffsetsOnto_piece (older : List Nat) (lineStart offset : Nat) (position : Position)
    (piece rest : List Char) (hLine : position.line = older.length + 1)
    (hColumn : lineStart + position.column = offset) :
    ∃ newer newStart,
      lineOffsetsOnto (lineStart :: older) offset (piece ++ rest) =
        lineOffsetsOnto (newStart :: newer) (offset + piece.length) rest ∧
      (position.advance piece).line = newer.length + 1 ∧
      newStart + (position.advance piece).column = offset + piece.length := by
  induction piece generalizing older lineStart offset position with
  | nil => exact ⟨older, lineStart, rfl, hLine, hColumn⟩
  | cons c piece ih =>
      obtain ⟨middle, middleStart, hFirst, hMiddleLine, hMiddleColumn⟩ :=
        lineOffsetsOnto_cons older lineStart offset position c (piece ++ rest) hLine hColumn
      obtain ⟨newer, newStart, hOffsets, hNewLine, hNewColumn⟩ :=
        ih middle middleStart (offset + 1) (position.next c) hMiddleLine hMiddleColumn
      have hLength : offset + (c :: piece).length = offset + 1 + piece.length := by
        rw [List.length_cons, Nat.add_assoc, Nat.add_comm 1]
      rw [hLength]
      exact ⟨newer, newStart, hFirst.trans hOffsets, hNewLine, hNewColumn⟩

theorem lineOffsetsOnto_eq (found : List Nat) (offset : Nat) (text : List Char) :
    ∃ later, lineOffsetsOnto found offset text = found.reverse ++ later := by
  induction text generalizing found offset with
  | nil => exact ⟨[], by simp [lineOffsetsOnto]⟩
  | cons c rest ih =>
      by_cases hFeed : c = '\n'
      · obtain ⟨later, hLater⟩ := ih ((offset + 1) :: found) (offset + 1)
        exact ⟨(offset + 1) :: later, by simp [lineOffsetsOnto, hFeed, hLater]⟩
      · obtain ⟨later, hLater⟩ := ih found (offset + 1)
        exact ⟨later, by simp [lineOffsetsOnto, hFeed, hLater]⟩

/-- The line of a position that was reached by reading has an offset, and the column leads from
there to where the reading stands. -/
theorem lineStart?_advance (piece rest : List Char) :
    ∃ lineStart,
      (Buffer.ofText (piece ++ rest)).lineStart? (Position.start.advance piece).line =
        some lineStart ∧
      lineStart + (Position.start.advance piece).column = piece.length := by
  obtain ⟨newer, newStart, hOffsets, hLine, hColumn⟩ :=
    lineOffsetsOnto_piece [] 0 0 Position.start piece rest rfl rfl
  obtain ⟨later, hLater⟩ := lineOffsetsOnto_eq (newStart :: newer) (0 + piece.length) rest
  refine ⟨newStart, ?_, by simpa using hColumn⟩
  rw [Buffer.lineStart?_eq, Buffer.text_ofText, lineOffsets, hOffsets, hLater, hLine]
  simp

/-- Every line feed begins a line. -/
theorem length_lineOffsetsOnto (found : List Nat) (offset : Nat) (text : List Char) :
    (lineOffsetsOnto found offset text).length = found.length + text.count '\n' := by
  induction text generalizing found offset with
  | nil => simp [lineOffsetsOnto]
  | cons c rest ih =>
      by_cases hFeed : c = '\n'
      · simp [lineOffsetsOnto, hFeed, ih, Nat.add_assoc, Nat.add_comm 1]
      · simp [lineOffsetsOnto, hFeed, ih]

/-- Every line begins behind the lines before it. None of those that were found begins behind the
place where the reading stands, and a new one does. -/
theorem pairwise_lineOffsetsOnto {found : List Nat} {offset : Nat} (text : List Char)
    (hFound : found.Pairwise (· > ·)) (hBefore : ∀ start ∈ found, start ≤ offset) :
    (lineOffsetsOnto found offset text).Pairwise (· < ·) := by
  induction text generalizing found offset with
  | nil => exact List.pairwise_reverse.2 hFound
  | cons c rest ih =>
      have hBehind : ∀ start ∈ found, start < offset + 1 := fun start hMem =>
        Nat.lt_succ_of_le (hBefore start hMem)
      rw [lineOffsetsOnto]
      split
      · refine ih (hFound.cons hBehind) (List.forall_mem_cons.2 ⟨Nat.le_refl _, ?_⟩)
        exact fun start hMem => (hBehind start hMem).le
      · exact ih hFound fun start hMem => (hBehind start hMem).le

/-- The line of an offset has a start, and the column leads from there to the offset. -/
theorem getElem?_lineOffsets_ofOffset {text : List Char} {offset : Nat}
    (hOffset : offset ≤ text.length) :
    ∃ lineStart, (lineOffsets text)[(Position.ofOffset text offset).line - 1]? = some lineStart ∧
      lineStart + (Position.ofOffset text offset).column = offset := by
  obtain ⟨lineStart, hLine, hColumn⟩ :=
    lineStart?_advance (text.take offset) (text.drop offset)
  rw [Buffer.lineStart?_eq, Buffer.text_ofText, List.take_append_drop,
    Position.start_advance_take] at hLine
  rw [Position.start_advance_take, List.length_take_of_le hOffset] at hColumn
  exact ⟨lineStart, hLine, hColumn⟩

/-- Positions tell offsets. Whatever pieces the text before an offset is read in, and whether a
piece is read as a whole or character by character, the line is one more than the line feeds before
the offset and the column is what stands behind the last of them; the line has a start among the
line offsets, and this start and the column add up to the offset. The line offsets are as many as
the lines and strictly increase, and no two offsets have one position. -/
theorem position_tells_offset (text : List Char) :
    (∀ offset ≤ text.length,
      (∀ pieces : List (List Char), pieces.flatten = text.take offset →
        pieces.foldl Position.jump Position.start = Position.ofOffset text offset ∧
        pieces.foldl Position.advance Position.start = Position.ofOffset text offset) ∧
      ∃ lineStart, (lineOffsets text)[(Position.ofOffset text offset).line - 1]? = some lineStart ∧
        lineStart + (Position.ofOffset text offset).column = offset) ∧
    (lineOffsets text).length = 1 + text.count '\n' ∧
    (lineOffsets text).Pairwise (· < ·) ∧
    Set.InjOn (Position.ofOffset text) (Set.Iic text.length) := by
  refine ⟨fun offset hOffset => ⟨fun pieces hPieces => ?_, getElem?_lineOffsets_ofOffset hOffset⟩,
    length_lineOffsetsOnto [0] 0 text,
    pairwise_lineOffsetsOnto text (List.pairwise_singleton _ 0) (by simp), ?_⟩
  · have hRead : pieces.foldl Position.advance Position.start = Position.ofOffset text offset := by
      rw [Position.foldl_advance, hPieces, Position.start_advance_take]
    have hWays : Position.jump = Position.advance :=
      funext₂ fun position piece => (position.advance_eq_jump piece).symm
    exact ⟨hWays ▸ hRead, hRead⟩
  · intro first hFirst second hSecond hSame
    obtain ⟨lineStart, hLine, hColumn⟩ := getElem?_lineOffsets_ofOffset hFirst
    obtain ⟨otherStart, hOtherLine, hOtherColumn⟩ := getElem?_lineOffsets_ofOffset hSecond
    rw [hSame] at hLine hColumn
    calc
      first = lineStart + (Position.ofOffset text second).column := hColumn.symm
      _ = otherStart + (Position.ofOffset text second).column := by
        rw [Option.some.inj (hLine.symm.trans hOtherLine)]
      _ = second := hOtherColumn

/-- A line that ends with a return and a line feed, an empty line, and a piece that ends in the
middle of the third line. -/
theorem position_tells_offset_in_page :
    let text := "<p>\r\n\n <b\n>".toList
    let pieces := ["<p>\r".toList, [], "\n\n".toList, " <".toList]
    pieces.flatten = text.take 8 ∧
      pieces.foldl Position.advance Position.start = ⟨3, 2⟩ ∧
      ∃ lineStart, (lineOffsets text)[2]? = some lineStart ∧ lineStart + 2 = 8 := by
  intro text pieces
  have hPieces : pieces.flatten = text.take 8 := by decide
  obtain ⟨hRead, hStart⟩ := (position_tells_offset text).1 8 (by decide)
  have hPosition : Position.ofOffset text 8 = ⟨3, 2⟩ := by decide
  rw [hPosition] at hStart
  exact ⟨hPieces, (hRead pieces hPieces).2.trans hPosition, hStart⟩

end AccessibleMarkup.Markup
