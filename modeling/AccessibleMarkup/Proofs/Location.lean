import AccessibleMarkup.Proofs.Openings
import AccessibleMarkup.Proofs.Positions
import AccessibleMarkup.Proofs.TagGrammar

/-! The tag of an element is found where the element was read. The shortest way to see that the
tag ends where the tokeniser says is to read it the same way again; trying every way to read it,
the longest first, ends at the same place. -/
namespace AccessibleMarkup.Markup

open AccessibleMarkup.Text

@[simp] theorem lastOr_nil (before : Char) : lastOr before [] = before := rfl

@[simp] theorem lastOr_cons (before c : Char) (rest : List Char) :
    lastOr before (c :: rest) = lastOr c rest := by
  simp [lastOr, List.getLast?_cons]

@[simp] theorem lastOr_append (before : Char) (front rest : List Char) :
    lastOr before (front ++ rest) = lastOr (lastOr before front) rest := by
  induction front generalizing before with
  | nil => rfl
  | cons c front ih => simp [ih]

/-- The longest part comes first. -/
theorem frontReadings_cons (admits : Char → Bool) (before : Char) (run rest : List Char) :
    ∃ shorter, frontReadings admits before run.length (run ++ rest) =
      (lastOr before run, rest) :: shorter := by
  suffices hOnto : ∀ found, ∃ shorter,
      frontReadingsOnto admits found before run.length (run ++ rest) =
        (lastOr before run, rest) :: shorter from hOnto []
  induction run generalizing before with
  | nil =>
      intro found
      exact ⟨found, by simp [frontReadingsOnto]⟩
  | cons c run ih =>
      intro found
      obtain ⟨shorter, hShorter⟩ := ih c (if admits before then (before, c :: run ++ rest) :: found
        else found)
      exact ⟨shorter, by simpa [frontReadingsOnto] using hShorter⟩

/-- A value without quotes is first read in its whole length. -/
theorem bareReadings_cons (before : Char) {text value following : List Char}
    (hSplit : splitBareValue text = (value, following)) :
    ∃ shorter, bareReadings before text = (lastOr before value, following) :: shorter := by
  obtain ⟨rfl, -⟩ := splitBareValue_eq_iff.1 hSplit
  obtain ⟨shorter, hShorter⟩ := frontReadings_cons admitsAttribute before value following
  exact ⟨shorter, by rw [bareReadings, hSplit, hShorter]⟩

/-- A reading with the separators behind it. -/
def Reading.withGap (reading : Reading) : Reading :=
  (lastOr reading.1 (splitGap reading.2).1, (splitGap reading.2).2)

theorem withGap_eq {before : Char} {following gap rest : List Char}
    (hGap : splitGap following = (gap, rest)) :
    Reading.withGap (before, following) = (lastOr before gap, rest) := by
  simp [Reading.withGap, hGap]

theorem splitGap_blank_cons {blank : Char} (hBlank : isBlank blank = true) (text : List Char) :
    splitGap (blank :: text) = (blank :: (splitGap text).1, (splitGap text).2) := by
  simp [splitGap, splitRun_cons, hBlank]

/-- A lead ends with its last blank, or with the equals sign. -/
theorem lastOr_lead {before signs behind : List Char} (hLead : IsLead before signs behind)
    (c : Char) : lastOr c (before ++ signs ++ behind) = lastOr '=' behind := by
  have hSigns : lastOr (lastOr c before) signs = '=' := by
    obtain ⟨front, last, hEq⟩ : ∃ front last, signs = front ++ [last] :=
      ⟨_, _, (List.dropLast_concat_getLast hLead.signs_ne_nil).symm⟩
    have hLast := hLead.signs_eq last (by simp [hEq])
    simp [hEq, hLast]
  rw [lastOr_append, lastOr_append, hSigns]

/-- The first way to read what follows a name is what the reader takes. -/
theorem assignmentReadings_cons {assignment : Assignment} {following gap rest : List Char}
    (hEnds : assignment.Ends following) (hGap : splitGap following = (gap, rest)) (c : Char) :
    ∃ first shorter, assignmentReadings (assignment.source ++ following) = first :: shorter ∧
      first.withGap = (lastOr c (assignment.source ++ gap), rest) := by
  cases hEnds with
  | @quoted before signs behind text following mark lead isMark closed =>
      have hText : Assignment.source ⟨before ++ signs ++ behind, .quoted mark text⟩ ++ following =
          before ++ signs ++ behind ++ mark :: (text ++ mark :: following) := by
        simp [Assignment.source, WrittenValue.source]
      rw [hText]
      simp only [assignmentReadings, splitLead?_quote lead isMark, isMark, if_true,
        splitAtFirst?_eq_some_iff.2 ⟨rfl, closed⟩]
      refine ⟨(mark, following), _, rfl, ?_⟩
      rw [withGap_eq hGap]
      simp [Assignment.source, WrittenValue.source]
  | @bare before signs behind value following lead leadStops opens goesOn stops =>
      have hLead : splitLead? (before ++ signs ++ behind ++ (value ++ following)) =
          some ((before, signs, behind), value ++ following) :=
        splitLead?_eq_some_iff.2 ⟨rfl, lead, leadStops⟩
      have hText : Assignment.source ⟨before ++ signs ++ behind, .bare value⟩ ++ following =
          before ++ signs ++ behind ++ (value ++ following) := by
        simp [Assignment.source, WrittenValue.source]
      obtain ⟨shorter, hShorter⟩ := bareReadings_cons (lastOr '=' behind)
        (splitBareValue_eq_iff.2 ⟨rfl, goesOn, stops⟩)
      have hLast : lastOr c (Assignment.source ⟨before ++ signs ++ behind, .bare value⟩ ++ gap) =
          lastOr (lastOr (lastOr '=' behind) value) gap := by
        rw [Assignment.source, lastOr_append, lastOr_append, lastOr_lead lead, WrittenValue.source]
      rw [hText, hLast]
      simp only [assignmentReadings, hLead]
      split
      · rename_i hNil
        obtain ⟨rfl, rfl⟩ := List.append_eq_nil_iff.1 hNil
        exact ⟨(lastOr '=' behind, []), _, rfl, withGap_eq hGap⟩
      · rename_i first inner hCons
        have hFirst : ¬ isQuote first = true := by
          rw [hCons] at opens
          simpa using opens
        rw [if_neg hFirst, hShorter]
        exact ⟨(lastOr (lastOr '=' behind) value, following), _, rfl, withGap_eq hGap⟩
  | @beforeBlank before signs behind tail blank mark lead isMark unclosed =>
      have hText : Assignment.source ⟨before ++ signs ++ behind, .bare []⟩ ++ blank :: mark :: tail =
          before ++ signs ++ (behind ++ [blank]) ++ mark :: tail := by
        simp [Assignment.source, WrittenValue.source]
      rw [splitGap_blank_cons (lead.behind_blank blank (by simp))] at hGap
      obtain ⟨rfl, rfl⟩ := Prod.mk.inj hGap
      rw [hText]
      simp only [assignmentReadings, splitLead?_quote lead isMark, isMark, if_true,
        splitAtFirst?_eq_none_iff.2 unclosed, List.getLast?_concat]
      exact ⟨(blank, mark :: tail), _, rfl, by simp [Reading.withGap]⟩
  | @beforeSign before signs value following mark lead isMark goesOn stops unclosed =>
      have hText : Assignment.source ⟨before ++ signs, .bare ('=' :: mark :: value)⟩ ++ following =
          before ++ (signs ++ ['=']) ++ [] ++ mark :: (value ++ following) := by
        simp [Assignment.source, WrittenValue.source]
      have hMany : 2 ≤ (signs ++ ['=']).length := by
        have hSigns := List.length_pos_iff.2 lead.signs_ne_nil
        simp only [List.length_append, List.length_singleton]
        omega
      obtain ⟨shorter, hShorter⟩ := bareReadings_cons '=' (splitBareValue_sign isMark goesOn stops)
      rw [hText]
      simp only [assignmentReadings, splitLead?_quote lead.concat_sign isMark, isMark, if_true,
        splitAtFirst?_eq_none_iff.2 unclosed, List.getLast?_nil, if_pos hMany, List.nil_append,
        List.cons_append, hShorter]
      refine ⟨(lastOr '=' ('=' :: mark :: value), following), shorter, rfl, ?_⟩
      rw [withGap_eq hGap]
      simp [Assignment.source, WrittenValue.source]

/-- Where the reader takes no assignment, the search has none to try. -/
theorem assignmentReadings_eq_nil {text : List Char} (hNone : readAssignment? text = none) :
    assignmentReadings text = [] := by
  rcases readAssignment?_eq_none_iff.1 hNone with hStops | ⟨before, mark, rest, rfl, hBefore, hMark,
    hRest⟩
  · rw [← splitLead?_eq_none_iff] at hStops
    simp only [assignmentReadings, hStops]
  · have hSingle : IsLead before ['='] [] := ⟨hBefore, by simp, by simp, by simp⟩
    have hLead : splitLead? (before ++ '=' :: mark :: rest) =
        some ((before, ['='], []), mark :: rest) := by
      simpa using splitLead?_quote hSingle hMark rest
    simp [assignmentReadings, hLead, hMark, splitAtFirst?_eq_none_iff.2 hRest]

/-- The first way to read an attribute is what the reader takes. -/
theorem attributeReadings_cons {before : Char} {text rest : List Char}
    {written : WrittenAttribute} (hRead : readAttribute? before text = some (written, rest)) :
    ∃ shorter, attributeReadings before text = (lastOr before written.source, rest) :: shorter := by
  obtain ⟨rfl, hBefore, hName, hEnds, hGap⟩ := readAttribute?_eq_some_iff.1 hRead
  obtain ⟨name, assignment, gap⟩ := written
  cases name with
  | nil => exact hName.elim
  | cons c name =>
      obtain ⟨hBegins, hContinues⟩ := hName
      dsimp only at hEnds hGap
      rw [WrittenAttribute.source_append]
      simp only [attributeReadings, hBefore, hBegins, Bool.and_self, if_true,
        hEnds.splitRun_name hContinues]
      cases assignment with
      | none =>
          obtain ⟨shorter, hShorter⟩ := frontReadings_cons isQuote c name (gap ++ rest)
          refine ⟨shorter.map Reading.withGap, ?_⟩
          simp only [Option.map_none, Option.getD_none, assignmentReadings_eq_nil hEnds.2,
            List.nil_append, hShorter, List.map_cons]
          congr 1
          change Reading.withGap (lastOr c name, gap ++ rest) = _
          rw [withGap_eq hGap]
          simp [WrittenAttribute.source, WrittenAttribute.body]
      | some assignment =>
          obtain ⟨first, shorter, hReadings, hFirst⟩ :=
            assignmentReadings_cons hEnds hGap (lastOr c name)
          refine ⟨(shorter ++ frontReadings isQuote c name.length
            (name ++ (assignment.source ++ (gap ++ rest)))).map Reading.withGap, ?_⟩
          simp only [Option.map_some, Option.getD_some, hReadings, List.cons_append,
            List.map_cons]
          congr 1
          change Reading.withGap first = _
          rw [hFirst]
          simp [WrittenAttribute.source, WrittenAttribute.body]

/-- Where the reader takes no attribute, the search has none to try. -/
theorem attributeReadings_eq_nil {before : Char} {text : List Char}
    (hNone : readAttribute? before text = none) : attributeReadings before text = [] := by
  cases text with
  | nil => rfl
  | cons c rest =>
      have hBegins : (admitsAttribute before && beginsName c) = false := by
        rcases readAttribute?_eq_none_iff.1 hNone with hBefore | hStops
        · simp [hBefore]
        · simp [(stops_cons beginsName c rest).1 hStops]
      simp [attributeReadings, hBegins]

theorem tagEnd_ending (tag : OpenTag) (behind : List Char) :
    (tagEnd (tag.ending ++ behind)).map (·.2) = some behind := by
  obtain ⟨name, gap, attributes, selfClosed⟩ := tag
  cases selfClosed <;> rfl

/-- The search behind the name of a tag ends where its attributes and its end were read. -/
theorem afterAttributes?_of_attributesEnd {before : Char} {attributes : List WrittenAttribute}
    {tag : OpenTag} {behind : List Char} {fuel : Nat}
    (hEnd : AttributesEnd before attributes (tag.ending ++ behind))
    (hFuel : attributes.length < fuel) :
    afterAttributes? fuel before
      (attributes.flatMap WrittenAttribute.source ++ (tag.ending ++ behind)) = some behind := by
  induction attributes generalizing before fuel with
  | nil =>
      cases fuel with
      | zero => simp at hFuel
      | succ fuel =>
          simp [afterAttributes?, attributeReadings_eq_nil hEnd, tagEnd_ending]
  | cons written more ih =>
      cases fuel with
      | zero => simp at hFuel
      | succ fuel =>
          obtain ⟨hBefore, hName, hEnds, hGap, hMore⟩ := hEnd
          have hRead := readAttribute?_eq_some_iff.2 ⟨rfl, hBefore, hName, hEnds, hGap⟩
          obtain ⟨shorter, hReadings⟩ := attributeReadings_cons hRead
          have hTail := ih hMore (Nat.lt_of_succ_lt_succ hFuel)
          simp only [List.flatMap_cons, List.append_assoc, afterAttributes?, hReadings,
            List.findSome?_cons, hTail]

/-- A tag has no more attributes than characters, so that the fuel of the search is enough. -/
theorem length_attributes_le {before : Char} {attributes : List WrittenAttribute}
    {rest : List Char} (hEnd : AttributesEnd before attributes rest) :
    attributes.length ≤ (attributes.flatMap WrittenAttribute.source).length := by
  induction attributes generalizing before with
  | nil => simp
  | cons written more ih =>
      obtain ⟨-, hName, -, -, hMore⟩ := hEnd
      have hTail := ih hMore
      have hPositive : 0 < written.name.length := by
        cases hWritten : written.name with
        | nil => exact (hWritten ▸ hName).elim
        | cons c name => simp
      simp only [List.length_cons, List.flatMap_cons, List.length_append,
        WrittenAttribute.source, WrittenAttribute.body] at hTail ⊢
      omega

/-- Trying every way to read a tag, the longest first, finds the tag that the tokeniser reads. -/
theorem searchOpenTag?_of_complete {text behind : List Char} {tag : OpenTag}
    (hRead : readOpenTag text = .complete tag behind) :
    searchOpenTag? text = some (tag.name, behind) := by
  obtain ⟨rfl, hEnds⟩ := readOpenTag_eq_complete_iff.1 hRead
  cases hName : tag.name with
  | nil => exact (hName ▸ hEnds.name).elim
  | cons c name =>
      obtain ⟨hLetter, hContinues⟩ : IsTagName (c :: name) := hName ▸ hEnds.name
      let rest := tag.attributeText ++ (tag.ending ++ behind)
      have hText : tag.sourceTail ++ behind = c :: (name ++ (tag.gap ++ rest)) := by
        simp [rest, OpenTag.sourceTail, OpenTag.attributeText, hName]
      have hSplit : splitRun (fun c _ => continuesTagName c) (name ++ (tag.gap ++ rest)) =
          (name, tag.gap ++ rest) := splitRun_eq_iff.2 ⟨rfl, hContinues, hEnds.nameStops⟩
      have hGap : splitGap (tag.gap ++ rest) = (tag.gap, rest) := hEnds.gapStops
      have hFuel : tag.attributes.length < (c :: (name ++ (tag.gap ++ rest))).length := by
        have hLength := length_attributes_le hEnds.attributes
        simp only [rest, OpenTag.attributeText, List.length_cons, List.length_append]
        omega
      have hAfter : afterAttributes? (c :: (name ++ (tag.gap ++ rest))).length
          (lastOr (lastOr c name) tag.gap) rest = some behind := by
        have hAttributes := hEnds.attributes
        rw [hName, lastOr_append, lastOr_cons] at hAttributes
        exact afterAttributes?_of_attributesEnd hAttributes hFuel
      obtain ⟨shorter, hReadings⟩ := frontReadings_cons (fun _ => true) c name (tag.gap ++ rest)
      rw [hText]
      simp only [searchOpenTag?, hLetter, if_true, hSplit, hReadings, List.findSome?_cons, hGap,
        hAfter, Option.map_some]
      have hTake : (c :: (name ++ (tag.gap ++ rest))).length - (tag.gap ++ rest).length =
          (c :: name).length := by
        simp only [List.length_cons, List.length_append]
        omega
      rw [hTake, ← List.cons_append, List.take_left]

/-- Reading the tag as the tokeniser does, before any search, changes neither the name nor the text
that the search alone finds. -/
theorem openTagAt?_eq_search (text : List Char) :
    openTagAt? ('<' :: text) = (searchOpenTag? text).map fun found =>
      (found.1, ('<' :: text).take (('<' :: text).length - found.2.length)) := by
  unfold openTagAt?
  split
  · rename_i behind hText
    obtain rfl := (List.cons.inj hText).2
    split
    · rename_i tag rest hRead
      have hJoin : '<' :: text = tag.source ++ rest := by
        rw [OpenTag.source, List.cons_append, sourceTail_append_of_readOpenTag hRead]
      rw [searchOpenTag?_of_complete hRead, Option.map_some, hJoin, List.length_append,
        Nat.add_sub_cancel, List.take_left]
    · rfl
  · rename_i hOpens
    exact absurd rfl (hOpens text)

/-- The tag that the reader takes at the front of a text is the tag that stands there. -/
theorem openTagAt?_of_complete {text rest : List Char} {tag : OpenTag}
    (hRead : readOpenTag text = .complete tag rest) :
    openTagAt? ('<' :: text) = some (tag.name, tag.source) := by
  simp [openTagAt?, hRead]

/-- A tag is located where the tokeniser read it. -/
theorem locate_opening {text : List Char} {opening : Opening} (hStands : opening.StandsIn text) :
    locate (Buffer.ofText text) opening.element = .ok opening.placed := by
  obtain ⟨behind, hText, hRead⟩ := hStands
  obtain ⟨lineStart, hLine, hColumn⟩ :=
    lineStart?_advance opening.before (opening.tag.source ++ behind)
  rw [← List.append_assoc, ← hText] at hLine
  have hBehind : (Buffer.ofText text).behind opening.before.length =
      '<' :: (opening.tag.sourceTail ++ behind) := by
    rw [Buffer.behind_eq_drop, Buffer.text_ofText, hText, List.append_assoc, List.drop_left]
    rfl
  simp [locate, Opening.element, hLine, hColumn, hBehind, openTagAt?_of_complete hRead,
    Opening.placed]

end AccessibleMarkup.Markup
