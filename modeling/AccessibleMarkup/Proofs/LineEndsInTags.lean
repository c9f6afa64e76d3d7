import AccessibleMarkup.Proofs.LineEnds
import AccessibleMarkup.Proofs.TagGrammar

/-! Tags of a text whose line ends are unified. White space is where it was, so a tag has the same
attributes, with values whose line ends are unified. An equals sign before a quote that is never
closed may give one blank back to the gap behind it; if that blank is a line feed behind a carriage
return, the lead of the assignment loses its end. -/
namespace AccessibleMarkup.Markup

open AccessibleMarkup.Text

def WrittenValue.unify : WrittenValue → WrittenValue
  | .bare text => .bare (unifyLineEnds text)
  | .quoted mark text => .quoted mark (unifyLineEnds text)

def Assignment.unify (assignment : Assignment) (following : List Char) : Assignment :=
  ⟨unifyPiece (feedNext (assignment.value.source ++ following)) assignment.lead,
    assignment.value.unify⟩

def WrittenAttribute.unify (written : WrittenAttribute) : WrittenAttribute :=
  ⟨written.name, written.assignment.map (·.unify written.gap), unifyLineEnds written.gap⟩

def OpenTag.unify (tag : OpenTag) : OpenTag :=
  ⟨tag.name, unifyLineEnds tag.gap, tag.attributes.map WrittenAttribute.unify, tag.selfClosed⟩

def TagReading.unify : TagReading → TagReading
  | .complete tag rest => .complete tag.unify (unifyLineEnds rest)
  | .broken name => .broken name
  | .incomplete => .incomplete

theorem splitBlank_unifyLineEnds (text : List Char) :
    splitBlank (unifyLineEnds text) =
      (unifyLineEnds (splitBlank text).1, unifyLineEnds (splitBlank text).2) :=
  splitRun_unifyLineEnds (@blindToLineEnds_of_test isBlank rfl) text

theorem splitBareValue_unifyLineEnds (text : List Char) :
    splitBareValue (unifyLineEnds text) =
      (unifyLineEnds (splitBareValue text).1, unifyLineEnds (splitBareValue text).2) :=
  splitRun_unifyLineEnds (@blindToLineEnds_of_test continuesBareValue rfl) text

/-- Separators end at the same place. -/
theorem splitGap_unifyLineEnds (text : List Char) :
    splitGap (unifyLineEnds text) =
      (unifyLineEnds (splitGap text).1, unifyLineEnds (splitGap text).2) := by
  refine splitRun_unifyLineEnds ⟨fun c rest _ => ?_, fun _ _ => rfl⟩ text
  have hHead : ((unifyLineEnds rest).head? != some '>') = (rest.head? != some '>') := by
    rw [Bool.eq_iff_iff, bne_iff_ne, bne_iff_ne, Decidable.not_iff_not,
      head?_unifyLineEnds_eq_some (by decide)]
    simp
  simp only [hHead]

theorem feedNext_gap (text : List Char) : feedNext (splitGap text).1 = feedNext text :=
  @feedNext_splitRun_fst (fun c rest => isBlank c || (c = '/' && rest.head? != some '>'))
    (fun _ => rfl) text

theorem readValue?_of_not_quote {text : List Char}
    (hHead : ∀ c ∈ text.head?, isQuote c = false) :
    readValue? text = some (.bare (splitBareValue text).1, (splitBareValue text).2) := by
  cases text with
  | nil => rfl
  | cons c rest =>
      have hC := hHead c rfl
      simp [readValue?, hC]

/-- A value is read with unified line ends where it is read. -/
theorem readValue?_unifyLineEnds (text : List Char) :
    readValue? (unifyLineEnds text) =
      (readValue? text).map (Prod.map WrittenValue.unify unifyLineEnds) := by
  by_cases hQuote : ∃ c rest, text = c :: rest ∧ isQuote c = true
  · obtain ⟨c, rest, rfl, hC⟩ := hQuote
    have hReturn : c ≠ '\r' := by
      rintro rfl
      cases hC
    have hFeed : c ≠ '\n' := by
      rintro rfl
      cases hC
    rw [unifyLineEnds_cons hReturn]
    simp only [readValue?, hC, if_true, splitAtFirst?_unifyLineEnds hReturn hFeed, Option.map_map]
    rfl
  · have hHead : ∀ c ∈ text.head?, isQuote c = false := by
      intro c hMem
      obtain ⟨rest, rfl⟩ := List.head?_eq_some_iff.1 hMem
      exact Bool.eq_false_iff.2 fun hC => hQuote ⟨c, rest, rfl, hC⟩
    have hUnified : ∀ c ∈ (unifyLineEnds text).head?, isQuote c = false := by
      intro c hMem
      rw [head?_unifyLineEnds] at hMem
      obtain ⟨d, hD, rfl⟩ := Option.map_eq_some_iff.1 hMem
      unfold asFeed
      split
      · rfl
      · exact hHead d hD
    rw [readValue?_of_not_quote hHead, readValue?_of_not_quote hUnified,
      splitBareValue_unifyLineEnds]
    rfl

theorem isOneLine_signs {signs : List Char} (hSigns : ∀ c ∈ signs, c = '=') : IsOneLine signs :=
  isOneLine_of_test (fun c => c = '=') rfl rfl (by simpa using hSigns)

theorem splitLead?_unifyLineEnds (text : List Char) :
    splitLead? (unifyLineEnds text) =
      (splitLead? text).map fun lead =>
        ((unifyLineEnds lead.1.1, lead.1.2.1, unifyLineEnds lead.1.2.2),
          unifyLineEnds lead.2) := by
  simp only [splitLead?, splitBlank_unifyLineEnds,
    @splitRun_unifyLineEnds_of_solid (fun c => c = '=') rfl rfl]
  split <;> rfl

/-- The character that is given back before a quote is the same one, or a line feed for a carriage
return. -/
theorem readBeforeQuote?_unifyLineEnds {before signs behind rest : List Char} (hSome : signs ≠ [])
    (hSigns : ∀ c ∈ signs, c = '=') (hRest : feedNext rest = false) :
    readBeforeQuote? (unifyLineEnds before) signs (unifyLineEnds behind) (unifyLineEnds rest) =
      (readBeforeQuote? before signs behind rest).map fun read =>
        (read.1.unify read.2, unifyLineEnds read.2) := by
  have hOneLine := isOneLine_signs hSigns
  rcases List.eq_nil_or_concat behind with rfl | ⟨front, blank, rfl⟩
  · have hInit : IsOneLine signs.dropLast :=
      isOneLine_signs fun c hMem => hSigns c (List.dropLast_subset _ hMem)
    have hValue := splitBareValue_unifyLineEnds ('=' :: rest)
    have hJoin := splitBareValue_append ('=' :: rest)
    rw [unifyLineEnds_cons (by decide)] at hValue
    simp only [readBeforeQuote?, unifyLineEnds_nil, List.getLast?_nil, hValue]
    split
    · simp only [Option.map_some, Assignment.unify, WrittenValue.source, hJoin]
      rw [show feedNext ('=' :: rest) = false from rfl, ← unifyLineEnds_eq,
        unifyLineEnds_append_of_feed hInit.feedNext_eq, hInit.unifyLineEnds_eq]
      rfl
    · rfl
  · have hBlank : unifyLineEnds [blank] = [asFeed blank] := unifyLineEnds_cons_of_feed rfl blank
    have hFlag : feedNext (blank :: rest) = feedNext [blank] := rfl
    have hLast : (before ++ signs).getLast? ≠ some '\r' := by
      rw [List.getLast?_append, Option.or_of_isSome (by simpa using hSome)]
      exact hOneLine.getLast?_ne_return
    simp only [readBeforeQuote?, List.concat_eq_append, unifyLineEnds_append front, hBlank,
      List.getLast?_concat, List.dropLast_concat, Option.map_some, Assignment.unify,
      WrittenValue.source, List.nil_append, hFlag, unifyLineEnds_cons_of_feed hRest,
      WrittenValue.unify, unifyLineEnds_nil]
    rw [unifyPiece_append _ (before ++ signs), unifyPiece_of_getLast? hLast,
      unifyLineEnds_append_of_feed hOneLine.feedNext_eq, hOneLine.unifyLineEnds_eq]

theorem feedNext_of_stops {text : List Char} (hStops : Stops isBlank text) :
    feedNext text = false := by
  cases text with
  | nil => rfl
  | cons c rest =>
      have hC : c ≠ '\n' := by
        rintro rfl
        exact absurd ((stops_cons ..).1 hStops) (by decide)
      simp [feedNext, hC]

/-- The line ends of a lead are in the white space on both sides of its signs. -/
theorem unifyLineEnds_lead {before signs behind : List Char} (hLead : IsLead before signs behind) :
    unifyLineEnds (before ++ signs ++ behind) =
      unifyLineEnds before ++ signs ++ unifyLineEnds behind := by
  have hNext : feedNext (signs ++ behind) = false := by
    obtain ⟨c, signs, rfl⟩ := List.exists_cons_of_ne_nil hLead.signs_ne_nil
    rw [hLead.signs_eq c (List.mem_cons_self ..)]
    rfl
  rw [List.append_assoc, unifyLineEnds_append_of_feed hNext,
    unifyLineEnds_append_of_oneLine (isOneLine_signs hLead.signs_eq), List.append_assoc]

/-- An assignment is read with unified line ends where it is read. -/
theorem readAssignment?_unifyLineEnds (text : List Char) :
    readAssignment? (unifyLineEnds text) =
      (readAssignment? text).map fun read => (read.1.unify read.2, unifyLineEnds read.2) := by
  simp only [readAssignment?, splitLead?_unifyLineEnds]
  cases hRead : splitLead? text with
  | none => rfl
  | some found =>
      obtain ⟨⟨before, signs, behind⟩, rest⟩ := found
      obtain ⟨-, hLead, hStops, -⟩ := splitLead?_eq_some_iff.1 hRead
      have hRest := feedNext_of_stops hStops
      simp only [Option.map_some, readValue?_unifyLineEnds]
      cases hValue : readValue? rest with
      | none => exact readBeforeQuote?_unifyLineEnds hLead.signs_ne_nil hLead.signs_eq hRest
      | some read =>
          obtain ⟨value, left⟩ := read
          simp only [Option.map_some, Prod.map_apply, Assignment.unify,
            source_append_of_readValue? hValue, hRest, ← unifyLineEnds_eq,
            unifyLineEnds_lead hLead]

/-- The line ends of an assignment hang on no more of what follows it than its separators. -/
theorem Assignment.unify_gap (assignment : Assignment) (text : List Char) :
    assignment.unify (splitGap text).1 = assignment.unify text := by
  have hFlag : feedNext (assignment.value.source ++ (splitGap text).1) =
      feedNext (assignment.value.source ++ text) := by
    cases assignment.value.source with
    | nil => exact feedNext_gap text
    | cons c rest => rfl
  rw [Assignment.unify, Assignment.unify, hFlag]

/-- An attribute may follow a line feed as well as a carriage return. -/
theorem admitsAttribute_asFeed (before : Char) :
    admitsAttribute (asFeed before) = admitsAttribute before := by
  unfold asFeed
  split
  · next hReturn =>
      rw [hReturn]
      rfl
  · rfl

/-- An attribute of a text with unified line ends. -/
theorem readAttribute?_unifyLineEnds (before : Char) (text : List Char) :
    readAttribute? (asFeed before) (unifyLineEnds text) =
      (readAttribute? before text).map (Prod.map WrittenAttribute.unify unifyLineEnds) := by
  cases text using unifyLineEnds_cases with
  | nil => rfl
  | turned rest left hLeft =>
      have hNone : readAttribute? before ('\r' :: rest) = none := by
        simp [readAttribute?, show beginsName '\r' = false from rfl]
      rw [hNone, hLeft]
      simp [readAttribute?, show beginsName '\n' = false from rfl]
  | kept c rest hReturn =>
      rw [unifyLineEnds_cons hReturn]
      simp only [readAttribute?, admitsAttribute_asFeed, readAssignment?_unifyLineEnds,
        @splitRun_unifyLineEnds_of_solid continuesName rfl rfl]
      split
      · cases readAssignment? (splitRun (fun c _ => continuesName c) rest).2 with
        | none => simp [splitGap_unifyLineEnds, WrittenAttribute.unify]
        | some read =>
            simp [splitGap_unifyLineEnds, WrittenAttribute.unify, Assignment.unify_gap]
      · rfl

theorem feedNext_of_beginsNoGap {text : List Char} (hBegins : BeginsNoGap text) :
    feedNext text = false := by
  cases text with
  | nil => rfl
  | cons c rest => exact feedNext_of_stops hBegins.1

/-- An attribute with unified line ends is written as the attribute is, with its line ends unified.
-/
theorem source_unify_of_readAttribute? {before : Char} {text rest : List Char}
    {written : WrittenAttribute} (hRead : readAttribute? before text = some (written, rest)) :
    written.unify.source = unifyLineEnds written.source := by
  have hUnified : readAttribute? (asFeed before) (unifyLineEnds text) =
      some (written.unify, unifyLineEnds rest) := by
    rw [readAttribute?_unifyLineEnds, hRead]
    rfl
  obtain ⟨rfl, -, -, -, hGap⟩ := readAttribute?_eq_some_iff.1 hRead
  have hJoin := source_append_of_readAttribute? hUnified
  rw [unifyLineEnds_append_of_feed (feedNext_of_beginsNoGap (gapStops_iff.1 hGap).2.2)] at hJoin
  exact List.append_cancel_right hJoin

theorem lastOr_unifyLineEnds (before : Char) (text : List Char) :
    lastOr (asFeed before) (unifyLineEnds text) = asFeed (lastOr before text) := by
  rw [lastOr, lastOr, getLast?_unifyLineEnds]
  cases text.getLast? <;> rfl

/-- The attributes of a text with unified line ends. -/
theorem readAttributes_unifyLineEnds (before : Char) (text : List Char) :
    readAttributes (asFeed before) (unifyLineEnds text) =
      ((readAttributes before text).1.map WrittenAttribute.unify,
        unifyLineEnds (readAttributes before text).2) := by
  induction hLength : text.length using Nat.strongRecOn generalizing before text with
  | ind length ih =>
    have hUnified := readAttribute?_unifyLineEnds before text
    cases hRead : readAttribute? before text with
    | none =>
        rw [hRead] at hUnified
        rw [readAttributes_of_none hRead, readAttributes_of_none hUnified]
        rfl
    | some read =>
        obtain ⟨written, rest⟩ := read
        rw [hRead] at hUnified
        have hShorter := length_lt_of_readAttribute? hRead
        rw [readAttributes_of_some hRead, readAttributes_of_some hUnified,
          source_unify_of_readAttribute? hRead, lastOr_unifyLineEnds,
          ih rest.length (by omega) _ rest rfl]
        rfl

/-- All attributes of a tag with unified line ends are written as they were, with their line ends
unified. -/
theorem source_unify_of_attributesEnd {before : Char} {attributes : List WrittenAttribute}
    {rest : List Char} (hEnd : AttributesEnd before attributes rest) :
    ∀ written ∈ attributes, written.unify.source = unifyLineEnds written.source := by
  induction attributes generalizing before with
  | nil => simp
  | cons first attributes ih =>
      obtain ⟨hAdmits, hName, hEnds, hGap, hLater⟩ := hEnd
      have hRead : readAttribute? before
          (first.source ++ (attributes.flatMap WrittenAttribute.source ++ rest)) =
          some (first, attributes.flatMap WrittenAttribute.source ++ rest) :=
        readAttribute?_eq_some_iff.2 ⟨rfl, hAdmits, hName, hEnds, hGap⟩
      exact List.forall_mem_cons.2 ⟨source_unify_of_readAttribute? hRead, ih hLater⟩

theorem isOneLine_of_isTagName {name : List Char} (hName : IsTagName name) : IsOneLine name :=
  isOneLine_of_test continuesTagName rfl rfl hName.continues

/-- The name of a tag ends at a line end of either kind, so it is read as it was. -/
theorem readTagName?_unifyLineEnds (text : List Char) :
    readTagName? (unifyLineEnds text) = (readTagName? text).map (Prod.map id unifyLineEnds) := by
  cases text using unifyLineEnds_cases with
  | nil => rfl
  | turned rest left hLeft =>
      rw [hLeft]
      rfl
  | kept c rest hReturn =>
      rw [unifyLineEnds_cons hReturn]
      simp only [readTagName?, @splitRun_unifyLineEnds_of_solid continuesTagName rfl rfl]
      split <;> rfl

/-- The end of a tag is where it was. -/
theorem tagEnd_unifyLineEnds (name gap : List Char) (attributes : List WrittenAttribute)
    (left : List Char) :
    (match unifyLineEnds left with
      | '>' :: rest => TagReading.complete
          ⟨name, unifyLineEnds gap, attributes.map WrittenAttribute.unify, false⟩ rest
      | '/' :: '>' :: rest => .complete
          ⟨name, unifyLineEnds gap, attributes.map WrittenAttribute.unify, true⟩ rest
      | '\x00' :: _ => .broken name
      | _ => .incomplete) =
      (match left with
      | '>' :: rest => TagReading.complete ⟨name, gap, attributes, false⟩ rest
      | '/' :: '>' :: rest => .complete ⟨name, gap, attributes, true⟩ rest
      | '\x00' :: _ => .broken name
      | _ => .incomplete).unify := by
  split
  · next rest hLeft =>
      obtain ⟨left, rfl, rfl⟩ := (unifyLineEnds_eq_cons_iff (by decide) (by decide)).1 hLeft
      rfl
  · next rest hLeft =>
      obtain ⟨left, rfl, hRest⟩ := (unifyLineEnds_eq_cons_iff (by decide) (by decide)).1 hLeft
      obtain ⟨left, rfl, rfl⟩ := (unifyLineEnds_eq_cons_iff (by decide) (by decide)).1 hRest
      rfl
  · next rest hLeft =>
      obtain ⟨left, rfl, rfl⟩ := (unifyLineEnds_eq_cons_iff (by decide) (by decide)).1 hLeft
      rfl
  · next hEnd hSlash hNull =>
      split
      · exact absurd (unifyLineEnds_cons (by decide) _) (hEnd _)
      · next rest =>
          refine absurd ?_ (hSlash (unifyLineEnds rest))
          rw [unifyLineEnds_cons (by decide), unifyLineEnds_cons (by decide)]
      · exact absurd (unifyLineEnds_cons (by decide) _) (hNull _)
      · rfl

/-- What stands behind `<` in a text with unified line ends. -/
theorem readOpenTag_unifyLineEnds (text : List Char) :
    readOpenTag (unifyLineEnds text) = (readOpenTag text).unify := by
  unfold readOpenTag
  rw [readTagName?_unifyLineEnds]
  cases hName : readTagName? text with
  | none => rfl
  | some found =>
      obtain ⟨name, behind⟩ := found
      obtain ⟨-, hTagName, -⟩ := readTagName?_eq_some_iff.1 hName
      have hBefore : lastOr '<' (name ++ unifyLineEnds (splitGap behind).1) =
          asFeed (lastOr '<' (name ++ (splitGap behind).1)) := by
        rw [← unifyLineEnds_append_of_oneLine (isOneLine_of_isTagName hTagName)]
        exact lastOr_unifyLineEnds '<' _
      simp only [Option.map_some, Prod.map_apply, id, splitGap_unifyLineEnds, hBefore,
        readAttributes_unifyLineEnds]
      exact tagEnd_unifyLineEnds ..

theorem OpenTag.getLast?_ending (tag : OpenTag) : tag.ending.getLast? = some '>' := by
  unfold OpenTag.ending
  split <;> rfl

theorem OpenTag.getLast?_sourceTail (tag : OpenTag) : tag.sourceTail.getLast? = some '>' := by
  rw [OpenTag.sourceTail, List.getLast?_append, OpenTag.getLast?_ending]
  rfl

/-- The source of a tag with unified line ends. -/
theorem sourceTail_unify_of_readOpenTag {text rest : List Char} {tag : OpenTag}
    (hRead : readOpenTag text = .complete tag rest) :
    tag.unify.sourceTail = unifyLineEnds tag.sourceTail := by
  have hUnified : readOpenTag (unifyLineEnds text) = .complete tag.unify (unifyLineEnds rest) := by
    rw [readOpenTag_unifyLineEnds, hRead]
    rfl
  have hLast : tag.sourceTail.getLast? ≠ some '\r' := by
    rw [OpenTag.getLast?_sourceTail]
    decide
  have hJoin := sourceTail_append_of_readOpenTag hUnified
  rw [← sourceTail_append_of_readOpenTag hRead, unifyLineEnds_append,
    unifyPiece_of_getLast? hLast] at hJoin
  exact List.append_cancel_right hJoin

end AccessibleMarkup.Markup
