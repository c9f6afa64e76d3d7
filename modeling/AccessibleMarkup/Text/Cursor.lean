/-!
A text with a place in it. Work that goes through a text from one end to the other moves the place
along and so touches every character a bounded number of times. What stands before and behind the
place is what cutting the text at its offset gives.
-/
namespace AccessibleMarkup.Text

/-- Moves up to `count` characters from one list to the front of the other. The first component
says how many were missing. -/
def transfer : Nat → List Char → List Char → Nat × List Char × List Char
  | count + 1, c :: source, target => transfer count source (c :: target)
  | count, source, target => (count, source, target)

/-- Moving characters across is taking them off the one list and putting them, in reverse, before
the other. -/
theorem transfer_eq (count : Nat) (source target : List Char) :
    transfer count source target =
      (count - source.length, source.drop count, (source.take count).reverse ++ target) := by
  induction count generalizing source target with
  | zero => cases source <;> simp [transfer]
  | succ count ih =>
    cases source with
    | nil => simp [transfer]
    | cons c rest => simp [transfer, ih]

/-- What is left behind the run at the front that passes the test. The number is the length of the
list and comes back as the length of what is left. -/
def dropRun (test : Char → Bool) : Nat → List Char → Nat × List Char
  | length, [] => (length, [])
  | length, c :: rest => if test c then dropRun test (length - 1) rest else (length, c :: rest)

/-- The number that is carried along is the length of what is left. -/
theorem dropRun_length (test : Char → Bool) (text : List Char) :
    dropRun test text.length text = ((text.dropWhile test).length, text.dropWhile test) := by
  induction text with
  | nil => rfl
  | cons c rest ih =>
    cases hTest : test c with
    | true => simpa [dropRun, hTest] using ih
    | false => simp [dropRun, hTest]

/-- A text cut in two at an offset. What stands before the offset is kept in reverse. -/
structure Cursor where
  before : List Char
  offset : Nat
  behind : List Char
  offset_eq : offset = before.length

namespace Cursor

def text (cursor : Cursor) : List Char :=
  cursor.before.reverse ++ cursor.behind

def atEnd (text : List Char) : Cursor :=
  ⟨text.reverse, text.length, [], by simp⟩

/-- The same text at another offset, or at its end if it has no such offset. -/
def moveTo (cursor : Cursor) (target : Nat) : Cursor :=
  if hLeft : target ≤ cursor.offset then
    let moved := transfer (cursor.offset - target) cursor.before cursor.behind
    ⟨moved.2.1, target, moved.2.2, by
      have hOffset := cursor.offset_eq
      simp only [moved, transfer_eq, List.length_drop]
      omega⟩
  else
    let moved := transfer (target - cursor.offset) cursor.behind cursor.before
    ⟨moved.2.2, target - moved.1, moved.2.1, by
      have hOffset := cursor.offset_eq
      simp only [moved, transfer_eq, List.length_append, List.length_reverse, List.length_take]
      omega⟩

/-- Another text in the place of what is behind the offset. -/
def withBehind (cursor : Cursor) (behind : List Char) : Cursor :=
  { cursor with behind := behind }

/-- The text without the run of characters right before the offset that pass the test. -/
def trimBefore (test : Char → Bool) (cursor : Cursor) : Cursor :=
  let kept := dropRun test cursor.offset cursor.before
  ⟨kept.2, kept.1, cursor.behind, by
    simp only [kept, cursor.offset_eq, dropRun_length]⟩

@[simp] theorem text_atEnd (text : List Char) : (atEnd text).text = text := by
  simp [atEnd, Cursor.text]

theorem length_text (cursor : Cursor) :
    cursor.text.length = cursor.offset + cursor.behind.length := by
  simp [Cursor.text, cursor.offset_eq]

/-- A cursor holds in reverse what stands before its offset. -/
theorem before_eq_take (cursor : Cursor) :
    cursor.before.reverse = cursor.text.take cursor.offset := by
  simp [Cursor.text, cursor.offset_eq]

/-- A cursor holds what stands behind its offset. -/
theorem behind_eq_drop (cursor : Cursor) : cursor.behind = cursor.text.drop cursor.offset := by
  simp [Cursor.text, cursor.offset_eq]

@[simp] theorem text_moveTo (cursor : Cursor) (target : Nat) :
    (cursor.moveTo target).text = cursor.text := by
  unfold moveTo
  split
  · simp only [Cursor.text, transfer_eq]
    rw [← List.append_assoc, ← List.reverse_append, List.take_append_drop]
  · simp only [Cursor.text, transfer_eq, List.reverse_append, List.reverse_reverse,
      List.append_assoc, List.take_append_drop]

/-- A cursor is moved to the offset that is asked for, but not beyond the end of the text. -/
theorem offset_moveTo (cursor : Cursor) (target : Nat) :
    (cursor.moveTo target).offset = min target cursor.text.length := by
  have hLength := cursor.length_text
  unfold moveTo
  split
  · simp only
    omega
  · simp only [transfer_eq]
    omega

@[simp] theorem before_moveTo (cursor : Cursor) (target : Nat) :
    (cursor.moveTo target).before = (cursor.text.take target).reverse := by
  rw [← List.reverse_reverse (cursor.moveTo target).before, before_eq_take, text_moveTo,
    offset_moveTo, ← List.take_eq_take_min]

@[simp] theorem behind_moveTo (cursor : Cursor) (target : Nat) :
    (cursor.moveTo target).behind = cursor.text.drop target := by
  rw [behind_eq_drop, text_moveTo, offset_moveTo]
  by_cases hTarget : target ≤ cursor.text.length
  · rw [Nat.min_eq_left hTarget]
  · rw [Nat.min_eq_right (by omega), List.drop_length, List.drop_of_length_le (by omega)]

@[simp] theorem text_withBehind (cursor : Cursor) (behind : List Char) :
    (cursor.withBehind behind).text = cursor.before.reverse ++ behind := rfl

@[simp] theorem before_trimBefore (test : Char → Bool) (cursor : Cursor) :
    (cursor.trimBefore test).before = cursor.before.dropWhile test := by
  simp only [trimBefore, cursor.offset_eq, dropRun_length]

end Cursor

end AccessibleMarkup.Text
