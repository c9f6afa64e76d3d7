import AccessibleMarkup.Markup.Edit
import AccessibleMarkup.Proofs.TagGrammar

/-! The attributes that are found in the text of a tag alone. The tokeniser reads a tag in front of
all the text behind it and refuses a slash before the end; the reader of a tag has no text behind
it, leaves out the `>` and takes such a slash for a separator. Both read the same attributes. -/
namespace AccessibleMarkup.Markup

open AccessibleMarkup.Text

theorem not_isBlank_end : isBlank '>' = false := by decide

theorem not_isQuote_end : isQuote '>' = false := by decide

/-- White space at the front is found before the end of a tag as without the end. -/
theorem splitBlank_end (front rest : List Char) :
    splitBlank (front ++ '>' :: rest) =
      ((splitBlank front).1, (splitBlank front).2 ++ '>' :: rest) := by
  rcases hSplit : splitBlank front with ⟨blank, behind⟩
  obtain ⟨rfl, hBlank, hStops⟩ := splitBlank_eq_iff.1 hSplit
  refine splitBlank_eq_iff.2 ⟨by simp, hBlank, ?_⟩
  cases behind with
  | nil => exact not_isBlank_end
  | cons c behind => exact hStops

/-- An assignment before the end of a tag is one without the end. -/
theorem Assignment.Ends.withoutEnd {assignment : Assignment} {front rest : List Char}
    (hEnds : assignment.Ends (front ++ '>' :: rest)) : assignment.Ends front := by
  generalize hFollowing : front ++ '>' :: rest = following at hEnds
  cases hEnds with
  | quoted lead isMark closed => exact .quoted lead isMark closed
  | bare lead leadStops opens goesOn stops =>
      subst hFollowing
      rw [← List.append_assoc] at leadStops opens
      exact .bare lead ⟨leadStops.1.of_append, fun hBehind => (leadStops.2 hBehind).of_append⟩
        opens.of_append goesOn stops.of_append
  | beforeBlank lead isMark unclosed =>
      cases front with
      | nil =>
          cases hFollowing
          have hBlank := lead.behind_blank '>' (by simp)
          simp [not_isBlank_end] at hBlank
      | cons c front =>
          cases front with
          | nil =>
              cases hFollowing
              simp [not_isQuote_end] at isMark
          | cons d front =>
              cases hFollowing
              exact .beforeBlank lead isMark fun hMem => unclosed (List.mem_append_left _ hMem)
  | beforeSign lead isMark goesOn stops unclosed =>
      subst hFollowing
      refine .beforeSign lead isMark goesOn stops.of_append fun hMem => unclosed ?_
      rw [← List.append_assoc]
      exact List.mem_append_left _ hMem

/-- Where no assignment begins before the end of a tag, none begins without the end either: neither
the equals sign nor the quote is the end. -/
theorem readAssignment?_withoutEnd {front rest : List Char}
    (hNone : readAssignment? (front ++ '>' :: rest) = none) : readAssignment? front = none := by
  rw [readAssignment?_eq_none_iff] at hNone ⊢
  rcases hNone with hStops | ⟨before, mark, tail, hText, hBefore, hMark, hTail⟩
  · rw [splitBlank_end] at hStops
    exact .inl hStops.of_append
  · have hSigns : splitBlank (before ++ '=' :: mark :: tail) = (before, '=' :: mark :: tail) :=
      splitBlank_eq_iff.2 ⟨rfl, hBefore, isBlank_sign⟩
    rw [← hText, splitBlank_end] at hSigns
    obtain ⟨hBlank, hBehind⟩ := Prod.mk.inj hSigns
    have hFront := splitBlank_append front
    rw [hBlank] at hFront
    rcases hLeft : (splitBlank front).2 with - | ⟨c, - | ⟨d, left⟩⟩
    · rw [hLeft] at hBehind
      simp at hBehind
    · rw [hLeft] at hBehind
      cases hBehind
      simp [not_isQuote_end] at hMark
    · rw [hLeft] at hBehind hFront
      cases hBehind
      exact .inr ⟨before, mark, left, hFront.symm, hBefore, hMark,
        fun hMem => hTail (List.mem_append_left _ hMem)⟩

theorem WrittenAttribute.Ends.withoutEnd {written : WrittenAttribute} {front rest : List Char}
    (hEnds : written.Ends (front ++ '>' :: rest)) : written.Ends front := by
  unfold WrittenAttribute.Ends at hEnds ⊢
  split at hEnds
  · exact ⟨hEnds.1.of_append, readAssignment?_withoutEnd hEnds.2⟩
  · exact Assignment.Ends.withoutEnd hEnds

/-- Attributes with more separators behind the last one. -/
def extendGap (more : List Char) : List WrittenAttribute → List WrittenAttribute
  | [] => []
  | [last] => [{ last with gap := last.gap ++ more }]
  | written :: other :: rest => written :: extendGap more (other :: rest)

theorem flatMap_source_extendGap (more : List Char) {attributes : List WrittenAttribute}
    (hNonempty : attributes ≠ []) :
    (extendGap more attributes).flatMap WrittenAttribute.source =
      attributes.flatMap WrittenAttribute.source ++ more := by
  induction attributes with
  | nil => exact absurd rfl hNonempty
  | cons written rest ih =>
      cases rest with
      | nil => simp [extendGap, WrittenAttribute.source, WrittenAttribute.body]
      | cons other rest =>
          have hRest := ih (by simp)
          simp only [extendGap, List.flatMap_cons, List.append_assoc] at hRest ⊢
          rw [hRest]

def OpenTag.slash (tag : OpenTag) : List Char :=
  if tag.selfClosed then ['/'] else []

theorem OpenTag.ending_eq (tag : OpenTag) : tag.ending = tag.slash ++ ['>'] := by
  unfold OpenTag.ending OpenTag.slash
  split <;> rfl

/-- A gap before the end of a tag takes in the slash once the end is gone. -/
theorem GapStops.withSlash {tag : OpenTag} {gap behind : List Char}
    (hGap : GapStops gap (tag.ending ++ behind)) : GapStops (gap ++ tag.slash) [] := by
  have hEnd : isBlank '/' = false := by decide
  rw [gapStops_iff] at hGap ⊢
  refine ⟨?_, by simp, trivial⟩
  intro c hMem
  rcases List.mem_append.1 hMem with hMem | hMem
  · exact hGap.1 c hMem
  · unfold OpenTag.slash at hMem
    split at hMem
    · exact .inr (by simpa using hMem)
    · simp at hMem

/-- The name of an attribute is no separator. -/
theorem beginsNoGap_of_isAttributeName {name : List Char} (hName : IsAttributeName name)
    (rest : List Char) : BeginsNoGap (name ++ rest) := by
  cases name with
  | nil => exact hName.elim
  | cons c name =>
      have hBegins := hName.1
      simp only [beginsName, Bool.not_eq_true', Bool.or_eq_false_iff, decide_eq_false_iff_not]
        at hBegins
      exact ⟨hBegins.1.1, fun hC => absurd hC hBegins.1.2⟩

/-- A gap before a name does not hang on what stands behind that. -/
theorem GapStops.before_name {gap name rest : List Char} (hName : IsAttributeName name)
    (hGap : GapStops gap (name ++ rest)) (other : List Char) : GapStops gap (name ++ other) := by
  rw [gapStops_iff] at hGap ⊢
  obtain ⟨hBlank, hLast, -⟩ := hGap
  refine ⟨hBlank, ?_, beginsNoGap_of_isAttributeName hName other⟩
  cases name with
  | nil => exact hName.elim
  | cons c name => exact hLast

/-- A gap stops before an attribute whatever follows that. -/
theorem GapStops.before_attribute {gap rest : List Char} {written : WrittenAttribute}
    (hName : IsAttributeName written.name) (hGap : GapStops gap (written.source ++ rest))
    (other : List Char) : GapStops gap (written.source ++ other) := by
  rw [WrittenAttribute.source, WrittenAttribute.body, List.append_assoc, List.append_assoc]
    at hGap ⊢
  exact hGap.before_name hName _

/-- Without the end of the tag the same attributes are read, but for the last gap. -/
theorem AttributesEnd.withoutEnd {before : Char} {attributes : List WrittenAttribute}
    {tag : OpenTag} {behind : List Char}
    (hEnd : AttributesEnd before attributes (tag.ending ++ behind)) (hNonempty : attributes ≠ []) :
    AttributesEnd before (extendGap tag.slash attributes) [] := by
  induction attributes generalizing before with
  | nil => exact absurd rfl hNonempty
  | cons written rest ih =>
      obtain ⟨hBefore, hName, hEnds, hGap, hRest⟩ := hEnd
      rw [OpenTag.ending_eq] at hEnds
      cases rest with
      | nil =>
          have hFront : written.Ends (written.gap ++ tag.slash) := by
            have hBefore : written.Ends (written.gap ++ tag.slash ++ '>' :: behind) := by
              simpa using hEnds
            exact hBefore.withoutEnd
          refine ⟨hBefore, hName, ?_, ?_, ?_⟩
          · simpa [WrittenAttribute.Ends] using hFront
          · simpa using hGap.withSlash
          · exact readAttribute?_eq_none_iff.2 (.inr trivial)
      | cons other rest =>
          have hTail := ih hRest (by simp)
          have hText := flatMap_source_extendGap tag.slash (List.cons_ne_nil other rest)
          have hFront : written.Ends
              (written.gap ++ ((extendGap tag.slash (other :: rest)).flatMap
                WrittenAttribute.source ++ [])) := by
            have hBefore : written.Ends (written.gap ++ ((other :: rest).flatMap
                WrittenAttribute.source ++ tag.slash) ++ '>' :: behind) := by
              simpa using hEnds
            rw [List.append_nil, hText]
            exact hBefore.withoutEnd
          refine ⟨hBefore, hName, hFront, ?_, hTail⟩
          rw [List.append_nil, hText]
          simp only [List.flatMap_cons, List.append_assoc] at hGap ⊢
          exact hGap.before_attribute hRest.2.1 _

/-- Where attributes stand that follow one another from an offset on. -/
def placedFrom (offset : Nat) : List WrittenAttribute → List PlacedAttribute
  | [] => []
  | written :: rest =>
    ⟨written.name, written.value?, offset, offset + written.body.length⟩ ::
      placedFrom (offset + written.source.length) rest

/-- Attributes that were placed before stand in front of those that are still to be placed. -/
theorem placeOnto_eq (placed : List PlacedAttribute) (offset : Nat)
    (attributes : List WrittenAttribute) :
    placeOnto placed offset attributes = placed.reverse ++ placedFrom offset attributes := by
  induction attributes generalizing placed offset with
  | nil => simp [placeOnto, placedFrom]
  | cons written rest ih => simp [placeOnto, placedFrom, ih]

/-- The last gap moves nothing. -/
theorem placedFrom_extendGap (more : List Char) (offset : Nat)
    (attributes : List WrittenAttribute) :
    placedFrom offset (extendGap more attributes) = placedFrom offset attributes := by
  induction attributes generalizing offset with
  | nil => rfl
  | cons written rest ih =>
      cases rest with
      | nil => rfl
      | cons other rest => simp only [extendGap, placedFrom] at ih ⊢; rw [ih]

theorem withoutEnd_prefix (text : List Char) : withoutEnd text <+: text := by
  unfold withoutEnd
  split
  · exact List.dropLast_prefix text
  · exact List.prefix_refl text

theorem withoutEnd_append {front : List Char} (hFront : '>' ∉ front) (behind : List Char) :
    withoutEnd (front ++ behind) = front ++ withoutEnd behind := by
  by_cases hBehind : behind = []
  · have hLast : ¬ front.getLast? = some '>' := fun hLast => hFront (List.mem_of_getLast? hLast)
    rw [hBehind, List.append_nil, withoutEnd, if_neg hLast]
    exact (List.append_nil front).symm
  · rw [withoutEnd, withoutEnd, List.getLast?_append,
      Option.or_of_isSome (List.getLast?_isSome.2 hBehind)]
    split
    · exact List.dropLast_append_of_ne_nil hBehind
    · rfl

/-- The name at the front of a text stands before its end. -/
theorem tagStart_prefix (text : List Char) : tagStart text <+: withoutEnd text := by
  unfold tagStart
  split
  · split
    · rename_i name behind hRead
      obtain ⟨rfl, hName, -⟩ := readTagName?_eq_some_iff.1 hRead
      have hFront : '>' ∉ '<' :: name := by
        intro hMem
        rcases List.mem_cons.1 hMem with hOpen | hMem
        · exact absurd hOpen (by decide)
        · exact absurd (hName.continues _ hMem) (by decide)
      rw [← List.cons_append, withoutEnd_append hFront]
      exact List.prefix_append _ _
    · exact List.nil_prefix
  · exact List.nil_prefix

/-- The attributes of any text are attributes that the tokeniser reads one after the other behind the
name of a tag, if there is one, and a gap. -/
theorem exists_gap_attributesOf (text : List Char) :
    ∃ gap attributes rest,
      withoutEnd text =
        tagStart text ++ gap ++ (attributes.flatMap WrittenAttribute.source ++ rest) ∧
        GapStops gap (attributes.flatMap WrittenAttribute.source ++ rest) ∧
        AttributesEnd (lastOr '<' (tagStart text ++ gap)) attributes rest ∧
        attributesOf text = placedFrom (tagStart text ++ gap).length attributes := by
  obtain ⟨behind, hBehind⟩ := tagStart_prefix text
  have hDrop : (withoutEnd text).drop (tagStart text).length = behind := by
    rw [← hBehind, List.drop_left]
  rcases hGap : splitGap behind with ⟨gap, tail⟩
  rcases hRead : readAttributes (lastOr '<' (tagStart text ++ gap)) tail with ⟨attributes, rest⟩
  obtain ⟨rfl, hEnd⟩ := readAttributes_eq_iff.1 hRead
  refine ⟨gap, attributes, rest, ?_, gapStops_of_splitGap hGap, hEnd, ?_⟩
  · have hJoin := splitGap_append behind
    rw [hGap] at hJoin
    rw [List.append_assoc, hJoin, hBehind]
  · simp only [attributesOf, hDrop, hGap, hRead, placeOnto_eq, List.reverse_nil, List.nil_append,
      List.length_append]

/-- The attributes of any text are attributes that the tokeniser reads one after the other from some
place on, where they stand in the text. -/
theorem exists_attributesOf (text : List Char) :
    ∃ front attributes rest,
      withoutEnd text = front ++ (attributes.flatMap WrittenAttribute.source ++ rest) ∧
        AttributesEnd (lastOr '<' front) attributes rest ∧
        attributesOf text = placedFrom front.length attributes := by
  obtain ⟨gap, attributes, rest, hText, -, hEnd, hPlaced⟩ := exists_gap_attributesOf text
  exact ⟨tagStart text ++ gap, attributes, rest, hText, hEnd, hPlaced⟩

/-- Without its end, a tag has its name, its attributes and its slash. -/
theorem withoutEnd_source (tag : OpenTag) :
    withoutEnd tag.source = '<' :: tag.name ++ (tag.gap ++ (tag.attributeText ++ tag.slash)) := by
  have hSource : tag.source =
      ('<' :: tag.name ++ (tag.gap ++ (tag.attributeText ++ tag.slash))) ++ ['>'] := by
    simp [OpenTag.source, OpenTag.sourceTail, OpenTag.attributeText, OpenTag.ending_eq]
  rw [hSource, withoutEnd, List.getLast?_concat, if_pos rfl, List.dropLast_concat]

section
variable {tag : OpenTag} {behind : List Char} (hEnds : tag.Ends behind)
include hEnds

/-- A tag that was read begins with its name. -/
theorem tagStart_source : tagStart tag.source = '<' :: tag.name := by
  have hStops : Stops continuesTagName (tag.gap ++ (tag.attributeText ++ tag.ending)) := by
    have hNonempty : tag.gap ++ (tag.attributeText ++ tag.ending) ≠ [] := by
      simp [OpenTag.ending_eq]
    have hStops := hEnds.nameStops
    rw [← List.append_assoc, ← List.append_assoc, List.append_assoc tag.gap] at hStops
    exact hStops.of_append
  have hRead : readTagName? tag.sourceTail =
      some (tag.name, tag.gap ++ (tag.attributeText ++ tag.ending)) :=
    readTagName?_eq_some_iff.2
      ⟨tag.sourceTail_eq_append, hEnds.name, hStops⟩
  simp [tagStart, OpenTag.source, hRead]

/-- The attributes that are found in the text of a tag are those that the tokeniser read, where
they stand in the tag. -/
theorem attributesOf_source :
    attributesOf tag.source =
      placedFrom ('<' :: tag.name ++ tag.gap).length tag.attributes := by
  have hDrop : (withoutEnd tag.source).drop (tagStart tag.source).length =
      tag.gap ++ (tag.attributeText ++ tag.slash) := by
    rw [tagStart_source hEnds, withoutEnd_source, List.drop_left]
  simp only [attributesOf, hDrop]
  rw [tagStart_source hEnds]
  by_cases hAttributes : tag.attributes = []
  · have hGap : splitGap (tag.gap ++ tag.slash) = (tag.gap ++ tag.slash, []) := by
      have hStops := hEnds.gapStops
      rw [OpenTag.attributeText, hAttributes, List.flatMap_nil, List.nil_append] at hStops
      simpa [GapStops] using hStops.withSlash
    have hNone : readAttribute? (lastOr '<' ('<' :: tag.name ++ (tag.gap ++ tag.slash))) [] = none :=
      readAttribute?_eq_none_iff.2 (.inr trivial)
    simp only [OpenTag.attributeText, hAttributes, List.flatMap_nil, List.nil_append, hGap,
      readAttributes_of_none hNone, placeOnto, placedFrom, List.reverse_nil]
  · obtain ⟨first, rest, hCons⟩ := List.exists_cons_of_ne_nil hAttributes
    have hGap : splitGap (tag.gap ++ (tag.attributeText ++ tag.slash)) =
        (tag.gap, tag.attributeText ++ tag.slash) := by
      have hStops := hEnds.gapStops
      have hName := hEnds.attributes
      rw [hCons] at hName
      rw [OpenTag.attributeText, hCons, List.flatMap_cons, List.append_assoc] at hStops ⊢
      exact hStops.before_attribute hName.2.1 _
    have hRead : readAttributes (lastOr '<' ('<' :: tag.name ++ tag.gap))
        (tag.attributeText ++ tag.slash) = (extendGap tag.slash tag.attributes, []) := by
      refine readAttributes_eq_iff.2 ⟨?_, ?_⟩
      · rw [flatMap_source_extendGap tag.slash hAttributes, List.append_nil]
        rfl
      · have hLast : lastOr '<' ('<' :: tag.name ++ tag.gap) =
            lastOr '<' (tag.name ++ tag.gap) := by
          simp [lastOr, List.getLast?_cons]
        rw [hLast]
        exact hEnds.attributes.withoutEnd hAttributes
    simp only [hGap, hRead, placeOnto_eq, List.reverse_nil, List.nil_append,
      placedFrom_extendGap, List.length_append]

end

end AccessibleMarkup.Markup
