import AccessibleMarkup.Proofs.LabelledTags

/-! The text of a tag with its label, read by itself. A tag that was found in a text is read alone as
it was read there, since a quote that nothing behind the tag closes is not closed by nothing at all.
With the label it is read as the same tag with one more attribute in front. -/
namespace AccessibleMarkup

open AccessibleMarkup.Markup
open AccessibleMarkup.Text

namespace Markup

/-- The same attribute further behind. -/
def PlacedAttribute.movedBy (count : Nat) (placed : PlacedAttribute) : PlacedAttribute :=
  { placed with start := placed.start + count, stop := placed.stop + count }

/-- Attributes that stand further behind are the same ones moved. -/
theorem placedFrom_add (offset count : Nat) (attributes : List WrittenAttribute) :
    placedFrom (offset + count) attributes =
      (placedFrom offset attributes).map (PlacedAttribute.movedBy count) := by
  induction attributes generalizing offset with
  | nil => rfl
  | cons written rest ih =>
      have hRest := ih (offset + written.source.length)
      rw [Nat.add_right_comm] at hRest
      simp [placedFrom, hRest, PlacedAttribute.movedBy, Nat.add_right_comm]

/-- A tag is read alone as it is read in front of other text. -/
theorem OpenTag.Ends.alone {tag : OpenTag} {behind : List Char} (hEnds : tag.Ends behind) :
    tag.Ends [] :=
  hEnds.of_leavesOpen fun _ hMem => absurd hMem List.not_mem_nil

theorem OpenTag.Ends.readOpenTag_eq {tag : OpenTag} (hEnds : tag.Ends []) :
    readOpenTag tag.sourceTail = .complete tag [] :=
  readOpenTag_eq_complete_iff.2 ⟨by simp, hEnds⟩

/-- ASCII letters and hyphens make up names of attributes. -/
theorem isAttributeName_of_letters {name : List Char} (hNonempty : name ≠ [])
    (hLetters : ∀ c ∈ name, isLetter c = true ∨ c = '-') : IsAttributeName name := by
  have hLetter : ∀ c : Char, isLetter c = true → (beginsName c && continuesName c) = true := by
    intro c hC
    have hAscii := isAscii_of_isLetter hC
    revert hC
    apply forall_ascii ?_ hAscii
    decide
  have hEach : ∀ c ∈ name, beginsName c = true ∧ continuesName c = true := by
    intro c hMem
    rw [← Bool.and_eq_true]
    rcases hLetters c hMem with hC | rfl
    · exact hLetter c hC
    · rfl
  cases name with
  | nil => exact absurd rfl hNonempty
  | cons c name =>
      exact ⟨(hEach c (List.mem_cons_self ..)).1,
        fun d hMem => (hEach d (List.mem_cons_of_mem _ hMem)).2⟩

/-- A text ends with a slash and the end of a tag where a slash stands before its last character. -/
theorem suffix_concat_end_iff (front : List Char) :
    ['/', '>'] <:+ front ++ ['>'] ↔ front.getLast? = some '/' := by
  rw [← List.reverse_prefix, List.reverse_append, ← List.head?_reverse]
  cases front.reverse with
  | nil => simp
  | cons c rest => simp [List.cons_prefix_cons, eq_comm]

/-- The text between the name of a tag and its end. -/
def OpenTag.inside (tag : OpenTag) : List Char :=
  tag.gap ++ (tag.attributeText ++ tag.slash)

/-- A tag is its name and its inside between the two brackets. -/
theorem OpenTag.source_eq_inside (tag : OpenTag) :
    tag.source = '<' :: tag.name ++ tag.inside ++ ['>'] := by
  simp [source_eq_append, inside, ending_eq]

end Markup

namespace Rule

theorem inside_labelledTag (rule : Rule) (tag : OpenTag) :
    (rule.labelledTag tag).inside = rule.label ++ tag.inside := by
  have hSlash : (rule.labelledTag tag).slash = tag.slash := rfl
  rw [OpenTag.inside, hSlash]
  simp [labelledTag, OpenTag.inside, OpenTag.attributeText, WrittenAttribute.source, label_eq]

/-- A tag with its label ends with a slash where it does without the label. -/
theorem slash_labelledTag_iff {rule : Rule} {tag : OpenTag} (hName : IsTagName tag.name) :
    ['/', '>'] <:+ (rule.labelledTag tag).source ↔ ['/', '>'] <:+ tag.source := by
  rw [OpenTag.source_eq_inside, OpenTag.source_eq_inside, suffix_concat_end_iff,
    suffix_concat_end_iff, inside_labelledTag]
  cases hInside : tag.inside with
  | nil =>
      have hLabel : (rule.labelledTag tag).name = tag.name := rfl
      have hQuote : ('<' :: tag.name ++ (rule.label ++ [])).getLast? = some '"' := by
        simp [label, List.getLast?_cons, List.getLast?_append]
      have hLast : ('<' :: tag.name).getLast? ≠ some '/' := by
        intro hSlash
        rcases List.mem_cons.1 (List.mem_of_getLast? hSlash) with hOpen | hMem
        · exact absurd hOpen (by decide)
        · exact absurd (hName.continues _ hMem) (by decide)
      rw [hLabel, hQuote, List.append_nil]
      simp [hLast]
  | cons c rest =>
      rw [← List.append_assoc, List.getLast?_append_of_ne_nil _ (by simp),
        List.getLast?_append_of_ne_nil _ (by simp)]

/-- The attributes of a tag with its label are the label and then those of the tag. -/
theorem attributesOf_labelledTag {rule : Rule} (hWrites : rule.WritesAttribute) {tag : OpenTag}
    (hEnds : tag.Ends []) :
    attributesOf (rule.labelledTag tag).source =
      ⟨rule.attributeName.toList, some rule.value.toList, tag.name.length + 2,
          tag.name.length + 2 + (rule.attributeName.length + rule.value.length + 3)⟩ ::
        (attributesOf tag.source).map
          (PlacedAttribute.movedBy (rule.attributeName.length + rule.value.length + 4)) := by
  have hLabelled := (hWrites.ends_labelledTag hEnds []).2 hEnds
  have hBody : (rule.labelAttribute tag.gap).body.length =
      rule.attributeName.length + rule.value.length + 3 := by
    simp only [body_labelAttribute, labelBody, List.length_append, List.length_cons,
      List.length_nil, String.length_toList]
    omega
  have hFirst : ('<' :: (rule.labelledTag tag).name ++ (rule.labelledTag tag).gap).length =
      tag.name.length + 2 := by
    simp [labelledTag]
  have hBehind : tag.name.length + 2 + (rule.labelAttribute tag.gap).source.length =
      ('<' :: tag.name ++ tag.gap).length +
        (rule.attributeName.length + rule.value.length + 4) := by
    rw [WrittenAttribute.source, List.length_append, hBody, gap_labelAttribute]
    simp only [List.cons_append, List.length_cons, List.length_append]
    omega
  rw [attributesOf_source hLabelled, attributesOf_source hEnds, hFirst]
  change placedFrom (tag.name.length + 2) (rule.labelAttribute tag.gap :: tag.attributes) = _
  rw [placedFrom, hBody, hBehind, placedFrom_add]
  rfl

/-- A rule whose attribute has a name of ASCII letters and hyphens and a value without double quotes
adds exactly this attribute to the tag of an element, in front of the others. The tag is still one
tag with the same name from its beginning to its end, its other attributes keep their names and
values and move by the length of the label, and it closes itself where it did before. -/
theorem label_is_prepended {text : List Char} {document : Document} {element : Element}
    {placed : PlacedTag} (hRead : Document.read text = .ok document)
    (hElement : element ∈ document.elements)
    (hLocate : locate (Buffer.ofText text) element = .ok placed) {rule : Rule}
    (hName : rule.attributeName.toList ≠ [])
    (hLetters : ∀ c ∈ rule.attributeName.toList, isLetter c = true ∨ c = '-')
    (hValue : '"' ∉ rule.value.toList) :
    ∃ tag again : OpenTag, ∃ labelled : List Char,
      rule.insertInto placed.source = .ok labelled ∧
      readOpenTag (placed.source.drop 1) = .complete tag [] ∧
      readOpenTag (labelled.drop 1) = .complete again [] ∧
      openTagAt? placed.source = some (tag.name, placed.source) ∧
      openTagAt? labelled = some (tag.name, labelled) ∧
      searchOpenTag? (labelled.drop 1) = some (tag.name, []) ∧
      attributesOf labelled =
        ⟨rule.attributeName.toList, some rule.value.toList, tag.name.length + 2,
            tag.name.length + 2 + (rule.attributeName.length + rule.value.length + 3)⟩ ::
          (attributesOf placed.source).map
            (PlacedAttribute.movedBy (rule.attributeName.length + rule.value.length + 4)) ∧
      again.selfClosed = tag.selfClosed ∧
      (['/', '>'] <:+ labelled ↔ ['/', '>'] <:+ placed.source) := by
  obtain ⟨-, hStand, hElements, -⟩ := readable_of_read hRead
  rw [hElements] at hElement
  obtain ⟨opening, hOpening, rfl⟩ := List.mem_map.1 hElement
  rw [locate_opening (hStand opening hOpening), Except.ok.injEq] at hLocate
  subst hLocate
  obtain ⟨behind, -, hTag⟩ := hStand opening hOpening
  have hEnds := (readOpenTag_eq_complete_iff.1 hTag).2.alone
  have hWrites : rule.WritesAttribute := ⟨isAttributeName_of_letters hName hLetters, hValue⟩
  have hLabelled := ((hWrites.ends_labelledTag hEnds []).2 hEnds).readOpenTag_eq
  have hFound := openTagAt?_of_complete hLabelled
  have hSearch := searchOpenTag?_of_complete hLabelled
  refine ⟨opening.tag, rule.labelledTag opening.tag, (rule.labelledTag opening.tag).source, ?_,
    hEnds.readOpenTag_eq, hLabelled, openTagAt?_of_complete hEnds.readOpenTag_eq,
    hFound, hSearch, attributesOf_labelledTag hWrites hEnds, rfl,
    slash_labelledTag_iff hEnds.name⟩
  rw [source_labelledTag]
  exact insertInto_source rule hEnds

/-- The label stands before a slash and a quote that is never closed. -/
theorem label_prepended_before_open_quote :
    ∃ labelled, (⟨"any", "p", "data-x", "a>b", .inputTags⟩ : Rule).insertInto
        "<p/= \"a/>".toList = .ok labelled ∧
      attributesOf labelled =
        ⟨"data-x".toList, some "a>b".toList, 3, 15⟩ ::
          (attributesOf "<p/= \"a/>".toList).map (PlacedAttribute.movedBy 13) := by
  have hRead : Document.read "<p/= \"a/>".toList =
      .ok ⟨[.opened ⟨"p", [⟨"=", ""⟩, ⟨"\"a", ""⟩], some ⟨1, 0⟩⟩, .closed "p"]⟩ := by
    decide +kernel
  have hLocate : locate (Buffer.ofText "<p/= \"a/>".toList)
      ⟨"p", [⟨"=", ""⟩, ⟨"\"a", ""⟩], some ⟨1, 0⟩⟩ = .ok ⟨0, "<p/= \"a/>".toList⟩ := by
    decide +kernel
  obtain ⟨tag, again, labelled, hInsert, -, -, hTag, -, -, hAttributes, -⟩ :=
    @label_is_prepended _ _ _ _ hRead (List.mem_singleton_self _) hLocate
      ⟨"any", "p", "data-x", "a>b", .inputTags⟩ (by decide) (by simp [isLetter]) (by decide)
  have hName : openTagAt? "<p/= \"a/>".toList = some (['p'], "<p/= \"a/>".toList) := by
    decide +kernel
  rw [hName] at hTag
  obtain ⟨hTagName, -⟩ := Prod.mk.inj (Option.some.inj hTag)
  refine ⟨labelled, hInsert, ?_⟩
  rw [hAttributes, ← hTagName]
  rfl

end Rule

end AccessibleMarkup
