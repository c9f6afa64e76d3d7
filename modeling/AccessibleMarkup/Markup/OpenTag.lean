import AccessibleMarkup.Markup.Attribute

/-!
Opening tags as they are written. A tag begins with `<` and a letter, and ends at the first `>`
that does not stand in a quoted value. Reading a tag is deterministic; what is read joins to the
text it was read from.
-/
namespace AccessibleMarkup.Markup

open AccessibleMarkup.Text

/-- An opening tag. The gap separates the name from the first attribute. -/
structure OpenTag where
  name : List Char
  gap : List Char
  attributes : List WrittenAttribute
  selfClosed : Bool
  deriving DecidableEq

namespace OpenTag

def ending (tag : OpenTag) : List Char :=
  if tag.selfClosed then ['/', '>'] else ['>']

/-- The tag as it is written, but for the `<`. -/
def sourceTail (tag : OpenTag) : List Char :=
  tag.name ++ tag.gap ++ tag.attributes.flatMap WrittenAttribute.source ++ tag.ending

def source (tag : OpenTag) : List Char :=
  '<' :: tag.sourceTail

end OpenTag

def isLetter (c : Char) : Bool :=
  ('a' ≤ c && c ≤ 'z') || ('A' ≤ c && c ≤ 'Z')

theorem isAscii_of_isLetter {c : Char} (hC : isLetter c = true) : c.toNat < 0x80 := by
  simp only [isLetter, Bool.or_eq_true, Bool.and_eq_true, decide_eq_true_eq] at hC
  rcases hC with ⟨-, hLast⟩ | ⟨-, hLast⟩
  · exact Nat.lt_of_le_of_lt (UInt32.le_iff_toNat_le.1 hLast) (by decide)
  · exact Nat.lt_of_le_of_lt (UInt32.le_iff_toNat_le.1 hLast) (by decide)

/-- A character that may continue the name of a tag. Only some kinds of white space end the
name. -/
def continuesTagName (c : Char) : Bool :=
  !(c = '\t' || c = '\n' || c = '\r' || c = '\x0C' || c = ' ' || c = '/' || c = '>' ||
    c = '\x00')

/-- The tag name at the front of the text and what follows it. -/
def readTagName? (text : List Char) : Option (List Char × List Char) :=
  match text with
  | [] => none
  | c :: rest =>
    if isLetter c then
      let (name, rest) := splitRun (fun c _ => continuesTagName c) rest
      some (c :: name, rest)
    else none

/-- What stands at the front of a text behind `<` and a letter. -/
inductive TagReading where
  /-- An opening tag, and the text behind it. -/
  | complete (tag : OpenTag) (rest : List Char)
  /-- Text that only looks like the beginning of a tag. -/
  | broken (name : List Char)
  /-- The beginning of a tag that does not end. -/
  | incomplete

/-- Reads the tag name at the front of the text, the attributes behind it and the end of the
tag. The text follows a `<`. -/
def readOpenTag (text : List Char) : TagReading :=
  match readTagName? text with
  | none => .incomplete
  | some (name, rest) =>
    let (gap, rest) := splitGap rest
    let (attributes, rest) := readAttributes (lastOr '<' (name ++ gap)) rest
    match rest with
    | '>' :: rest => .complete ⟨name, gap, attributes, false⟩ rest
    | '/' :: '>' :: rest => .complete ⟨name, gap, attributes, true⟩ rest
    | '\x00' :: _ => .broken name
    | _ => .incomplete

/-- A tag name is read off the front of the text as it is written there. -/
theorem append_of_readTagName? {text name rest : List Char}
    (hRead : readTagName? text = some (name, rest)) : name ++ rest = text := by
  unfold readTagName? at hRead
  split at hRead
  · simp at hRead
  · split at hRead
    · simp only [Option.some.injEq, Prod.mk.injEq] at hRead
      obtain ⟨rfl, rfl⟩ := hRead
      simp [splitRun_append]
    · simp at hRead

/-- A tag is the text it was read from. -/
theorem sourceTail_append_of_readOpenTag {text rest : List Char} {tag : OpenTag}
    (hRead : readOpenTag text = .complete tag rest) : tag.sourceTail ++ rest = text := by
  unfold readOpenTag at hRead
  split at hRead
  · simp at hRead
  · rename_i name behind hName
    have hJoinName := append_of_readTagName? hName
    have hJoinGap := splitGap_append behind
    have hJoin := readAttributes_append (lastOr '<' (name ++ (splitGap behind).1))
      (splitGap behind).2
    simp only at hRead
    split at hRead <;> simp only [TagReading.complete.injEq, reduceCtorEq] at hRead
    · rename_i tail hTail
      obtain ⟨rfl, rfl⟩ := hRead
      rw [hTail] at hJoin
      simp [OpenTag.sourceTail, OpenTag.ending, hJoin, hJoinGap, hJoinName]
    · rename_i tail hTail
      obtain ⟨rfl, rfl⟩ := hRead
      rw [hTail] at hJoin
      simp [OpenTag.sourceTail, OpenTag.ending, hJoin, hJoinGap, hJoinName]

/-- Only `>` ends a tag, and only the null character ends the reading without it. -/
theorem readOpenTag_eq_incomplete {text : List Char} (hEnd : '>' ∉ text) (hNull : '\x00' ∉ text) :
    readOpenTag text = .incomplete := by
  unfold readOpenTag
  split
  · rfl
  · rename_i name behind hName
    have hJoinName := append_of_readTagName? hName
    have hJoinGap := splitGap_append behind
    have hJoin := readAttributes_append (lastOr '<' (name ++ (splitGap behind).1))
      (splitGap behind).2
    have hSuffix : ∀ c ∈ (readAttributes (lastOr '<' (name ++ (splitGap behind).1))
        (splitGap behind).2).2, c ∈ text := by
      intro c hMem
      rw [← hJoinName, ← hJoinGap, ← hJoin]
      simp [hMem]
    simp only
    split
    · rename_i tail hTail
      exact absurd (hSuffix '>' (by simp [hTail])) hEnd
    · rename_i tail hTail
      exact absurd (hSuffix '>' (by simp [hTail])) hEnd
    · rename_i tail hTail
      exact absurd (hSuffix '\x00' (by simp [hTail])) hNull
    · rfl

end AccessibleMarkup.Markup
