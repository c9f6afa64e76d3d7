import AccessibleMarkup.Proofs.KeptTags

/-! When a tag that attributes were cut out of is read as the tag without them. It need not be: a
value without quotes may go on with a slash that is left behind it, and a slash that is left before
the end closes the tag. Only what stands directly before a cut can be read differently, so that is
all there is to ask for. -/
namespace AccessibleMarkup.Markup

open AccessibleMarkup.Text

/-- A text holds no quotes that another one lacks. -/
def QuotesWithin (text other : List Char) : Prop :=
  ∀ c ∈ text, isQuote c = true → c ∈ other

/-- What stands in front of both texts brings no quote that one of them lacks. -/
theorem QuotesWithin.append_left {text other : List Char} (hQuotes : QuotesWithin text other)
    (front : List Char) : QuotesWithin (front ++ text) (front ++ other) := by
  intro c hMem hQuote
  rcases List.mem_append.1 hMem with hMem | hMem
  · exact List.mem_append_left _ hMem
  · exact List.mem_append_right _ (hQuotes c hMem hQuote)

/-- How what stands before `front` ends does not hang on `rest`, quotes aside: the front ends with
something, and not with an equals sign before a quote. -/
def Anchors (front rest : List Char) : Prop :=
  ∃ init last, front = init ++ [last] ∧ isBlank last = false ∧ (last = '=' → Stops isQuote rest)

theorem Anchors.ne_nil {front rest : List Char} (hAnchors : Anchors front rest) : front ≠ [] := by
  obtain ⟨init, last, rfl, -⟩ := hAnchors
  simp

/-- Behind what is not empty, a run stops or not before the rest begins. -/
theorem stops_append_iff {test : Char → Bool} {front : List Char} (hNonempty : front ≠ [])
    (rest : List Char) : Stops test (front ++ rest) ↔ Stops test front :=
  ⟨Stops.of_append, fun hStops => hStops.append hNonempty rest⟩

/-- White space before something solid ends there. -/
theorem splitBlank_append_of_ne_nil {front : List Char} (hSolid : (splitBlank front).2 ≠ [])
    (rest : List Char) :
    splitBlank (front ++ rest) = ((splitBlank front).1, (splitBlank front).2 ++ rest) := by
  rcases hSplit : splitBlank front with ⟨blank, behind⟩
  rw [hSplit] at hSolid
  obtain ⟨rfl, hBlank, hStops⟩ := splitBlank_eq_iff.1 hSplit
  exact splitBlank_eq_iff.2 ⟨by simp, hBlank, hStops.append hSolid rest⟩

theorem Anchors.splitBlank_ne_nil {front rest : List Char} (hAnchors : Anchors front rest) :
    (splitBlank front).2 ≠ [] := by
  obtain ⟨init, last, rfl, hLast, -⟩ := hAnchors
  intro hNil
  rcases hSplit : splitBlank (init ++ [last]) with ⟨blank, behind⟩
  rw [hSplit] at hNil
  obtain ⟨hJoin, hBlank, -⟩ := splitBlank_eq_iff.1 hSplit
  simp only at hNil
  rw [hNil, List.append_nil] at hJoin
  have hMem : last ∈ blank := by
    rw [← hJoin]
    simp
  simp [hBlank last hMem] at hLast

/-- An equals sign stands in the text before a quote that is never closed. -/
def OpensQuote (mark : Char) (text : List Char) : Prop :=
  ∃ front blank rest, text = front ++ '=' :: (blank ++ mark :: rest) ∧
    (∀ c ∈ blank, isBlank c = true) ∧ mark ∉ rest

/-- A quote that a text opens stays open whatever stands in front. -/
theorem OpensQuote.append_left {mark : Char} {text : List Char} (hOpens : OpensQuote mark text)
    (front : List Char) : OpensQuote mark (front ++ text) := by
  obtain ⟨before, blank, rest, rfl, hBlank, hRest⟩ := hOpens
  exact ⟨front ++ before, blank, rest, by simp, hBlank, hRest⟩

/-- Where the text goes on with `other` and not with `rest`, no quote is closed that it leaves open
before. -/
def LeavesOpen (text rest other : List Char) : Prop :=
  ∀ mark ∈ other, isQuote mark = true → mark ∈ rest ∨ ¬ OpensQuote mark text

/-- A text closes no quote that the one in its place would leave open, if it has no other quotes. -/
theorem QuotesWithin.leavesOpen {rest other : List Char} (hQuotes : QuotesWithin other rest)
    (text : List Char) : LeavesOpen text rest other :=
  fun mark hMem hQuote => .inl (hQuotes mark hMem hQuote)

theorem LeavesOpen.of_append {front text rest other : List Char}
    (hLeaves : LeavesOpen (front ++ text) rest other) : LeavesOpen text rest other :=
  fun mark hMem hQuote => (hLeaves mark hMem hQuote).imp_right fun hNot hOpens =>
    hNot (hOpens.append_left front)

/-- A quote that is not closed is not closed by what comes in the place of the rest. -/
theorem LeavesOpen.not_mem {lead blank front rest other : List Char} {mark : Char}
    (hLeaves : LeavesOpen (lead ++ '=' :: (blank ++ mark :: (front ++ rest))) rest other)
    (hBlank : ∀ c ∈ blank, isBlank c = true) (hMark : isQuote mark = true)
    (hUnclosed : mark ∉ front ++ rest) : mark ∉ front ++ other := by
  intro hMem
  rcases List.mem_append.1 hMem with hMem | hMem
  · exact hUnclosed (List.mem_append_left _ hMem)
  · rcases hLeaves mark hMem hMark with hRest | hNot
    · exact hUnclosed (List.mem_append_right _ hRest)
    · exact hNot ⟨lead, blank, front ++ rest, rfl, hBlank, hUnclosed⟩

/-- The lead of an assignment ends with an equals sign and white space. -/
theorem IsLead.exists_sign {before signs behind : List Char} (hLead : IsLead before signs behind) :
    ∃ front, before ++ signs ++ behind = front ++ '=' :: behind := by
  have hJoin := List.dropLast_concat_getLast hLead.signs_ne_nil
  rw [hLead.signs_eq _ (List.getLast_mem hLead.signs_ne_nil)] at hJoin
  refine ⟨before ++ signs.dropLast, ?_⟩
  conv_lhs => rw [← hJoin]
  simp

/-- How an assignment ends is told by the front of what follows it, unless what comes behind the
front closes a quote. White space that the reader goes through is within the front, so that a quote
behind it stands in the front too. -/
theorem Assignment.Ends.of_leavesOpen {assignment : Assignment} {front rest other : List Char}
    (hEnds : assignment.Ends (front ++ rest)) (hAnchors : Anchors front rest)
    (hLeaves : LeavesOpen (assignment.source ++ (front ++ rest)) rest other) :
    assignment.Ends (front ++ other) := by
  have hNonempty := hAnchors.ne_nil
  generalize hFollowing : front ++ rest = following at hEnds hLeaves
  cases hEnds with
  | quoted lead isMark closed => exact .quoted lead isMark closed
  | @bare before signs behind value following lead leadStops opens goesOn stops =>
      subst hFollowing
      have hValue : value ++ front ≠ [] := by simp [hNonempty]
      have hStops (test : Char → Bool) : Stops test (value ++ (front ++ other)) ↔
          Stops test (value ++ (front ++ rest)) := by
        rw [← List.append_assoc, ← List.append_assoc, stops_append_iff hValue,
          stops_append_iff hValue]
      refine .bare lead
        ⟨(hStops _).2 leadStops.1, fun hBehind => (hStops _).2 (leadStops.2 hBehind)⟩
        ((hStops _).2 opens) goesOn ?_
      rw [stops_append_iff hNonempty] at stops ⊢
      exact stops
  | @beforeBlank before signs behind tail blank mark lead isMark unclosed =>
      obtain ⟨sign, hSign⟩ := lead.exists_sign
      have hSource : Assignment.source ⟨before ++ signs ++ behind, .bare []⟩ ++
          blank :: mark :: tail = sign ++ '=' :: (behind ++ [blank] ++ mark :: tail) := by
        have hLead := congrArg (· ++ mark :: tail) hSign
        simpa [Assignment.source, WrittenValue.source] using hLead
      rw [hSource] at hLeaves
      obtain ⟨init, last, rfl, hLast, -⟩ := hAnchors
      have hBlank := lead.behind_blank blank (by simp)
      cases init with
      | nil =>
          have hFirst : last = blank := (List.cons.inj hFollowing).1
          rw [hFirst, hBlank] at hLast
          simp at hLast
      | cons c init =>
          cases init with
          | nil =>
              cases hFollowing
              exact .beforeBlank lead isMark
                (@LeavesOpen.not_mem sign _ [] _ _ _ hLeaves lead.behind_blank isMark unclosed)
          | cons d init =>
              cases hFollowing
              exact .beforeBlank lead isMark (hLeaves.not_mem lead.behind_blank isMark unclosed)
  | @beforeSign before signs value following mark lead isMark goesOn stops unclosed =>
      subst hFollowing
      have hSource : Assignment.source ⟨before ++ signs, .bare ('=' :: mark :: value)⟩ ++
          (front ++ rest) = (before ++ signs) ++ '=' :: ([] ++ mark :: (value ++ front ++ rest)) := by
        simp [Assignment.source, WrittenValue.source]
      rw [hSource] at hLeaves
      rw [← List.append_assoc] at unclosed
      refine .beforeSign lead isMark goesOn ?_ ?_
      · rw [stops_append_iff hNonempty] at stops ⊢
        exact stops
      · rw [← List.append_assoc]
        exact hLeaves.not_mem (by simp) isMark unclosed

/-- That no assignment begins is told by the front of the text as well, since the front does not end
with the equals sign. -/
theorem readAssignment?_of_leavesOpen {front rest other : List Char}
    (hNone : readAssignment? (front ++ rest) = none) (hAnchors : Anchors front rest)
    (hLeaves : LeavesOpen (front ++ rest) rest other) :
    readAssignment? (front ++ other) = none := by
  have hSolid := hAnchors.splitBlank_ne_nil
  have hFront := splitBlank_append front
  rw [readAssignment?_eq_none_iff] at hNone ⊢
  rcases hNone with hStops | ⟨before, mark, tail, hText, hBefore, hMark, hTail⟩
  · left
    rw [splitBlank_append_of_ne_nil hSolid] at hStops ⊢
    rw [stops_append_iff hSolid] at hStops ⊢
    exact hStops
  · have hSplit : splitBlank (before ++ '=' :: mark :: tail) = (before, '=' :: mark :: tail) :=
      splitBlank_eq_iff.2 ⟨rfl, hBefore, isBlank_sign⟩
    rw [← hText, splitBlank_append_of_ne_nil hSolid] at hSplit
    obtain ⟨hBlank, hBehind⟩ := Prod.mk.inj hSplit
    rw [hBlank] at hFront
    right
    rcases hLeft : (splitBlank front).2 with - | ⟨c, - | ⟨d, left⟩⟩
    · exact absurd hLeft hSolid
    · rw [hLeft] at hBehind hFront
      obtain ⟨init, last, rfl, -, hSign⟩ := hAnchors
      cases hBehind
      have hLast : last = '=' := (List.append_inj' hFront rfl).2 |> List.cons.inj |>.1.symm
      have hQuote : isQuote mark = false := hSign hLast
      simp [hMark] at hQuote
    · rw [hLeft] at hBehind hFront
      cases hBehind
      rw [hText] at hLeaves
      exact ⟨before, mark, left ++ other, by rw [← hFront]; simp, hBefore, hMark,
        @LeavesOpen.not_mem before [] left _ _ _ hLeaves (by simp) hMark hTail⟩

/-- An attribute ends before the same front, whatever stands behind that, as long as this closes no
quote. -/
theorem WrittenAttribute.Ends.of_leavesOpen {written : WrittenAttribute}
    {front rest other : List Char} (hEnds : written.Ends (front ++ rest))
    (hAnchors : Anchors front rest)
    (hLeaves : LeavesOpen (written.body ++ (front ++ rest)) rest other) :
    written.Ends (front ++ other) := by
  obtain ⟨name, assignment, gap⟩ := written
  cases assignment with
  | none =>
      obtain ⟨hStops, hNone⟩ := hEnds
      refine ⟨?_, readAssignment?_of_leavesOpen hNone hAnchors hLeaves.of_append⟩
      rw [stops_append_iff hAnchors.ne_nil] at hStops ⊢
      exact hStops
  | some assignment =>
      have hText : WrittenAttribute.body ⟨name, some assignment, gap⟩ ++ (front ++ rest) =
          name ++ (assignment.source ++ (front ++ rest)) := by
        simp [WrittenAttribute.body]
      rw [hText] at hLeaves
      exact Assignment.Ends.of_leavesOpen hEnds hAnchors hLeaves.of_append

/-- An attribute ends before the same front, whatever stands behind that, as long as this brings no
quote. -/
theorem WrittenAttribute.Ends.of_anchors {written : WrittenAttribute} {front rest other : List Char}
    (hEnds : written.Ends (front ++ rest)) (hAnchors : Anchors front rest)
    (hQuotes : QuotesWithin other rest) : written.Ends (front ++ other) :=
  hEnds.of_leavesOpen hAnchors (hQuotes.leavesOpen _)

/-- What ends before a gap still ends before what the cuts leave of the gap, and no more than that
separates it from what comes next. -/
def ClosesUp (cut : WrittenAttribute → Bool) (following : List Char) (ends : List Char → Prop)
    (gap : List Char) (attributes : List WrittenAttribute) : Prop :=
  let (left, kept) := keepFrom cut gap attributes
  ends (left ++ (kept.flatMap WrittenAttribute.source ++ following)) ∧
    GapStops left (kept.flatMap WrittenAttribute.source ++ following)

/-- Every attribute that is kept directly before a cut ends before what is left behind it. -/
def CutsClose (cut : WrittenAttribute → Bool) (following : List Char) :
    List WrittenAttribute → Prop
  | written :: next :: rest =>
    (cut written = false → cut next = true →
      ClosesUp cut following written.Ends written.gap (next :: rest)) ∧
      CutsClose cut following (next :: rest)
  | _ => True

/-- The cuts in a tag close up where `behind` follows the tag. Directly before a cut the name of the
tag loses no white space at its end. -/
structure OpenTag.CutsClose (tag : OpenTag) (cut : List Char → Bool) (behind : List Char) :
    Prop where
  first : ∀ written ∈ tag.attributes.head?, cut written.name = true →
    trimEnd ('<' :: tag.name ++ tag.gap) = '<' :: tag.name ++ trimEnd tag.gap ∧
      ClosesUp (fun written => cut written.name) (tag.ending ++ behind) (Stops continuesTagName)
        tag.gap tag.attributes
  later : Markup.CutsClose (fun written => cut written.name) (tag.ending ++ behind)
    tag.attributes

theorem CutsClose.tail {cut : WrittenAttribute → Bool} {following : List Char}
    {written : WrittenAttribute} {rest : List WrittenAttribute}
    (hClose : CutsClose cut following (written :: rest)) : CutsClose cut following rest := by
  cases rest with
  | nil => trivial
  | cons next rest => exact hClose.2

theorem continuesName_of_isQuote {c : Char} (hQuote : isQuote c = true) :
    continuesName c = true := by
  simp only [isQuote, Bool.or_eq_true, decide_eq_true_eq] at hQuote
  rcases hQuote with rfl | rfl <;> decide

/-- What stands before the name of an attribute ends there or before. -/
theorem WrittenAttribute.Ends.anchors {written : WrittenAttribute} {following : List Char}
    (hEnds : written.Ends following) (hName : IsAttributeName written.name) (gap : List Char) :
    Anchors (gap ++ written.name)
      ((written.assignment.map Assignment.source).getD [] ++ following) := by
  obtain ⟨init, last, hLast⟩ : ∃ init last, written.name = init ++ [last] :=
    ⟨_, _, (List.dropLast_concat_getLast hName.ne_nil).symm⟩
  have hStops := hEnds.stops_name
  refine ⟨gap ++ init, last, by simp [hLast], not_isBlank_of_mem_name hName (by simp [hLast]), ?_⟩
  intro _
  cases hText : (written.assignment.map Assignment.source).getD [] ++ following with
  | nil => trivial
  | cons c rest =>
      rw [hText] at hStops
      cases hQuote : isQuote c with
      | false => exact hQuote
      | true => simp [continuesName_of_isQuote hQuote] at hStops

/-- The end of a tag tells how what stands before it ends. -/
theorem OpenTag.anchors_ending (tag : OpenTag) (gap behind : List Char) :
    Anchors (gap ++ tag.ending) behind := by
  refine ⟨gap ++ tag.slash, '>', by simp [tag.ending_eq], not_isBlank_end, ?_⟩
  intro hSign
  simp at hSign

/-- A gap before the end of a tag stops there whatever follows the tag. -/
theorem GapStops.before_ending {tag : OpenTag} {gap behind : List Char}
    (hGap : GapStops gap (tag.ending ++ behind)) (other : List Char) :
    GapStops gap (tag.ending ++ other) := by
  rw [gapStops_iff] at hGap ⊢
  obtain ⟨name, tagGap, attributes, selfClosed⟩ := tag
  cases selfClosed with
  | true => exact hGap
  | false => exact ⟨hGap.1, hGap.2.1, hGap.2.2.1, fun hEnd => absurd hEnd (by decide)⟩

/-- Cuts bring no quotes into the text. -/
theorem quotesWithin_keepFrom {cut : WrittenAttribute → Bool} {other following : List Char}
    (hQuotes : QuotesWithin other following) (gap : List Char)
    (attributes : List WrittenAttribute) :
    QuotesWithin ((keepFrom cut gap attributes).1 ++
        ((keepFrom cut gap attributes).2.flatMap WrittenAttribute.source ++ other))
      (gap ++ (attributes.flatMap WrittenAttribute.source ++ following)) := by
  induction attributes generalizing gap with
  | nil => exact (hQuotes.append_left []).append_left gap
  | cons written rest ih =>
      have hRest := (ih written.gap).append_left written.body
      intro c hMem hQuote
      cases hCut : cut written with
      | true =>
          rw [keepFrom_cut hCut, List.append_assoc] at hMem
          rcases List.mem_append.1 hMem with hMem | hMem
          · exact List.mem_append_left _ (mem_of_mem_trimEnd hMem)
          · refine List.mem_append_right _ ?_
            have hLeft : c ∈ (keepFrom cut written.gap rest).1 ++
                ((keepFrom cut written.gap rest).2.flatMap WrittenAttribute.source ++ other) := by
              unfold keptGap at hMem
              split at hMem
              · rcases List.mem_append.1 hMem with hMem | hMem
                · have hBlank : isQuote ' ' = false := by decide
                  rw [List.mem_singleton.1 hMem, hBlank] at hQuote
                  simp at hQuote
                · exact List.mem_append_right _ hMem
              · exact hMem
            have hWithin := hRest c (List.mem_append_right _ hLeft) hQuote
            simpa [WrittenAttribute.source, or_assoc] using hWithin
      | false =>
          rw [keepFrom_kept hCut] at hMem
          rcases List.mem_append.1 hMem with hMem | hMem
          · exact List.mem_append_left _ hMem
          · refine List.mem_append_right _ ?_
            have hLeft : c ∈ written.body ++ ((keepFrom cut written.gap rest).1 ++
                ((keepFrom cut written.gap rest).2.flatMap WrittenAttribute.source ++ other)) := by
              simpa [WrittenAttribute.source, WrittenAttribute.body, or_assoc] using hMem
            have hWithin := hRest c hLeft hQuote
            simpa [WrittenAttribute.source, or_assoc] using hWithin

/-- Nothing but separators stands between attributes that were read. -/
theorem AttributesEnd.separators {before : Char} {attributes : List WrittenAttribute}
    {rest : List Char} (hEnd : AttributesEnd before attributes rest) :
    ∀ written ∈ attributes, ∀ c ∈ written.gap, isSeparator c = true := by
  induction attributes generalizing before with
  | nil => simp
  | cons written more ih =>
      obtain ⟨-, -, -, hGap, hMore⟩ := hEnd
      intro other hMem
      rcases List.mem_cons.1 hMem with rfl | hMem
      · exact hGap.separators
      · exact ih hMore other hMem

/-- Where attributes are left behind a cut, something separates them from what comes before. -/
theorem keepFrom_cut_ne_nil {cut : WrittenAttribute → Bool} {written : WrittenAttribute}
    (hCut : cut written = true) (gap : List Char) {rest : List WrittenAttribute}
    (hKept : (keepFrom cut gap (written :: rest)).2 ≠ []) :
    (keepFrom cut gap (written :: rest)).1 ≠ [] := by
  rw [keepFrom_cut hCut] at hKept ⊢
  simp only at hKept ⊢
  intro hNil
  have hGap := (List.append_eq_nil_iff.1 hNil).2
  unfold keptGap at hGap
  split at hGap
  · simp at hGap
  · rename_i hNot
    simp [hGap, hKept] at hNot

/-- Since its name is not empty, an attribute ends with a character of its own. -/
theorem lastOr_of_ne_nil {written : WrittenAttribute} (hName : IsAttributeName written.name)
    (before other : Char) : lastOr before written.source = lastOr other written.source := by
  have hNonempty : written.source ≠ [] := by
    simp [WrittenAttribute.source, WrittenAttribute.body, hName.ne_nil]
  simp [lastOr, List.getLast?_eq_some_getLast hNonempty]

theorem flatMap_source_cons_append (written : WrittenAttribute) (rest : List WrittenAttribute)
    (following : List Char) :
    (written :: rest).flatMap WrittenAttribute.source ++ following =
      written.name ++ ((written.assignment.map Assignment.source).getD [] ++
        (written.gap ++ (rest.flatMap WrittenAttribute.source ++ following))) := by
  simp [WrittenAttribute.source, WrittenAttribute.body]

/-- The attributes that are left are read where the cuts close up. -/
theorem AttributesEnd.keepFrom {cut : WrittenAttribute → Bool} {tag : OpenTag}
    {behind other : List Char} (hQuotes : QuotesWithin other behind)
    {attributes : List WrittenAttribute} {before : Char}
    (hEnd : AttributesEnd before attributes (tag.ending ++ behind))
    (hClose : CutsClose cut (tag.ending ++ other) attributes) (gap : List Char) (last : Char)
    (hLast : (Markup.keepFrom cut gap attributes).2 ≠ [] → admitsAttribute last = true) :
    AttributesEnd last (Markup.keepFrom cut gap attributes).2 (tag.ending ++ other) := by
  induction attributes generalizing before gap last with
  | nil =>
      have hStops : Stops beginsName (tag.ending ++ other) := by
        unfold OpenTag.ending
        split <;> rfl
      exact readAttribute?_eq_none_iff.2 (.inr hStops)
  | cons written rest ih =>
      obtain ⟨-, hName, hEnds, hGap, hRest⟩ := hEnd
      cases hCut : cut written with
      | true =>
          rw [keepFrom_cut hCut] at hLast ⊢
          exact ih hRest hClose.tail written.gap last hLast
      | false =>
          rw [keepFrom_kept hCut] at hLast ⊢
          have hAdmits := hLast (by simp)
          cases rest with
          | nil =>
              simp only [List.flatMap_nil, List.nil_append] at hEnds hGap
              have hAnchors := tag.anchors_ending written.gap behind
              rw [← List.append_assoc] at hEnds
              have hHere := hEnds.of_anchors hAnchors hQuotes
              refine ⟨hAdmits, hName, ?_, ?_,
                ih hRest hClose.tail written.gap _ (by simp [Markup.keepFrom])⟩
              · simpa [Markup.keepFrom, WrittenAttribute.Ends] using hHere
              · simpa [Markup.keepFrom] using hGap.before_ending other
          | cons next more =>
              cases hNext : cut next with
              | true =>
                  obtain ⟨hHere, hStops⟩ := hClose.1 hCut hNext
                  refine ⟨hAdmits, hName, hHere, hStops, ih hRest hClose.tail written.gap _ ?_⟩
                  intro hKept
                  have hNonempty := keepFrom_cut_ne_nil hNext written.gap hKept
                  have hSeparators := @separators_keepFrom cut _ _ hGap.separators hRest.separators
                  rw [WrittenAttribute.source]
                  exact admitsAttribute_lastOr hNonempty hSeparators _ _
              | false =>
                  have hNextName := hRest.2.1
                  have hNextEnds := hRest.2.2.1
                  have hLater := ih hRest hClose.tail written.gap (lastOr last written.source)
                    fun _ => by
                      rw [lastOr_of_ne_nil hName last before]
                      exact hRest.1
                  rw [keepFrom_kept hNext] at hLater ⊢
                  rw [flatMap_source_cons_append] at hEnds hGap
                  rw [← List.append_assoc] at hEnds
                  have hWithin := (@quotesWithin_keepFrom cut _ _
                    (hQuotes.append_left tag.ending) next.gap more).append_left
                    ((next.assignment.map Assignment.source).getD [])
                  have hHere := hEnds.of_anchors (hNextEnds.anchors hNextName written.gap) hWithin
                  refine ⟨hAdmits, hName, ?_, ?_, hLater⟩
                  · rw [flatMap_source_cons_append]
                    simpa [WrittenAttribute.Ends] using hHere
                  · rw [flatMap_source_cons_append]
                    exact hGap.before_name hNextName _

/-- Where the attributes that are left are read, the cuts between them close up. -/
theorem AttributesEnd.cutsClose {cut : WrittenAttribute → Bool} {following : List Char}
    {attributes : List WrittenAttribute} {last : Char} {gap : List Char}
    (hEnd : AttributesEnd last (Markup.keepFrom cut gap attributes).2 following) :
    CutsClose cut following attributes := by
  induction attributes generalizing last gap with
  | nil => trivial
  | cons written rest ih =>
      cases hCut : cut written with
      | true =>
          rw [keepFrom_cut hCut] at hEnd
          cases rest with
          | nil => trivial
          | cons next more => exact ⟨fun hKept => by simp [hCut] at hKept, ih hEnd⟩
      | false =>
          rw [keepFrom_kept hCut] at hEnd
          obtain ⟨-, -, hHere, hStops, hRest⟩ := hEnd
          cases rest with
          | nil => trivial
          | cons next more => exact ⟨fun _ _ => ⟨hHere, hStops⟩, ih hRest⟩

namespace OpenTag

@[simp] theorem name_without (tag : OpenTag) (cut : List Char → Bool) :
    (tag.without cut).name = tag.name := rfl

@[simp] theorem selfClosed_without (tag : OpenTag) (cut : List Char → Bool) :
    (tag.without cut).selfClosed = tag.selfClosed := rfl

@[simp] theorem ending_without (tag : OpenTag) (cut : List Char → Bool) :
    (tag.without cut).ending = tag.ending := rfl

theorem gap_without (tag : OpenTag) (cut : List Char → Bool) :
    (tag.without cut).gap =
      (keepFrom (fun written => cut written.name) tag.gap tag.attributes).1 := rfl

theorem attributes_without (tag : OpenTag) (cut : List Char → Bool) :
    (tag.without cut).attributes =
      (keepFrom (fun written => cut written.name) tag.gap tag.attributes).2 := rfl

section
variable {tag : OpenTag} {cut : List Char → Bool} {behind other : List Char}
  (hEnds : tag.Ends behind)
include hEnds

/-- A tag is read without the attributes that are cut out where the cuts close up. -/
theorem Ends.without (hQuotes : QuotesWithin other behind) (hClose : tag.CutsClose cut other) :
    (tag.without cut).Ends other := by
  obtain ⟨hName, hNameStops, hGapStops, hAttributes⟩ := hEnds
  have hLater (last : Char) (hLast : (tag.without cut).attributes ≠ [] →
      admitsAttribute last = true) :
      AttributesEnd last (tag.without cut).attributes (tag.ending ++ other) :=
    hAttributes.keepFrom hQuotes hClose.later tag.gap last hLast
  cases hCons : tag.attributes with
  | nil =>
      have hGap : (tag.without cut).gap = tag.gap := by
        rw [gap_without, hCons]
        rfl
      have hText : (tag.without cut).attributeText = [] := by
        rw [attributeText, attributes_without, hCons]
        rfl
      rw [attributeText, hCons, List.flatMap_nil, List.nil_append] at hNameStops hGapStops
      refine ⟨hName, ?_, ?_, hLater _ fun hKept => ?_⟩
      · have hNonempty : tag.gap ++ tag.ending ≠ [] := (tag.anchors_ending tag.gap []).ne_nil
        rw [hGap, hText, ending_without, List.nil_append, ← List.append_assoc,
          stops_append_iff hNonempty]
        rw [← List.append_assoc, stops_append_iff hNonempty] at hNameStops
        exact hNameStops
      · rw [hGap, hText]
        exact hGapStops.before_ending other
      · rw [attributes_without, hCons] at hKept
        exact absurd rfl hKept
  | cons first rest =>
      rw [hCons] at hAttributes
      have hFirstName := hAttributes.2.1
      cases hCut : cut first.name with
      | true =>
          obtain ⟨-, hStops, hGap⟩ := hClose.first first (by simp [hCons]) hCut
          refine ⟨hName, hStops, hGap, hLater _ fun hKept => ?_⟩
          rw [name_without, gap_without]
          rw [attributes_without] at hKept
          rw [hCons] at hKept ⊢
          exact admitsAttribute_lastOr (keepFrom_cut_ne_nil hCut tag.gap hKept)
            (separators_keepFrom hGapStops.separators hAttributes.separators) _ _
      | false =>
          have hGap : (tag.without cut).gap = tag.gap := by
            rw [gap_without, hCons, keepFrom_kept hCut]
          obtain ⟨rest', hText⟩ : ∃ rest', (tag.without cut).attributeText ++
              (tag.ending ++ other) = first.name ++ rest' := by
            rw [attributeText, attributes_without, hCons, keepFrom_kept hCut]
            exact ⟨_, flatMap_source_cons_append _ _ _⟩
          rw [attributeText, hCons, flatMap_source_cons_append] at hNameStops hGapStops
          refine ⟨hName, ?_, ?_, hLater _ fun _ => ?_⟩
          · have hNonempty : tag.gap ++ first.name ≠ [] := by simp [hFirstName.ne_nil]
            rw [hGap, ending_without, hText, ← List.append_assoc, stops_append_iff hNonempty]
            rw [← List.append_assoc, stops_append_iff hNonempty] at hNameStops
            exact hNameStops
          · rw [hGap, ending_without, hText]
            exact hGapStops.before_name hFirstName rest'
          · rw [name_without, hGap]
            exact hAttributes.1

/-- The cuts leave the text of the tag without the attributes that are cut out exactly where the
name of the tag loses nothing. -/
theorem Ends.cutText_eq_iff (hCut : ∀ name, cut name = true → ∀ c ∈ name.head?, isQuote c = false) :
    tag.cutText cut = (tag.without cut).source ↔
      ∀ written ∈ tag.attributes.head?, cut written.name = true →
        trimEnd ('<' :: tag.name ++ tag.gap) = '<' :: tag.name ++ trimEnd tag.gap := by
  obtain ⟨-, -, hGapStops, hAttributes⟩ := hEnds
  have hClear := hAttributes.cutsStandClear (fun written => cut written.name)
    fun written _ => hCut written.name
  have hEnding : ∀ c ∈ tag.ending.head?, c = '/' ∨ c = '>' := by
    unfold ending
    split <;> simp
  have hSource : (tag.without cut).source = ('<' :: tag.name) ++ ((tag.without cut).gap ++
      ((tag.without cut).attributes.flatMap WrittenAttribute.source ++ tag.ending)) := by
    simp [source, sourceTail]
  have hWhole := cutFrom_eq_keepFrom hAttributes.names hGapStops.separators hAttributes.separators
    hClear hEnding ('<' :: tag.name)
  constructor
  · intro hSame written hFirst hFirstCut
    obtain ⟨rest, hCons⟩ := List.head?_eq_some_iff.1 hFirst
    rw [hCons] at hAttributes hClear
    have hRestClear : Markup.CutsStandClear (fun written => cut written.name) rest := by
      cases rest with
      | nil => trivial
      | cons other rest => exact hClear.2
    have hRestNames := fun other hMem => hAttributes.names other (List.mem_cons_of_mem _ hMem)
    have hRestGaps := fun other hMem => hAttributes.separators other (List.mem_cons_of_mem _ hMem)
    have hGap := hAttributes.separators written (List.mem_cons_self ..)
    have hLater := cutFrom_eq_keepFrom hRestNames hGap hRestGaps hRestClear hEnding []
      fun _ _ _ => rfl
    rw [List.nil_append, List.nil_append] at hLater
    rw [hSource, gap_without, attributes_without, hCons, keepFrom_cut hFirstCut, cutText, hCons,
      cutFrom, if_pos hFirstCut, hLater,
      keptApart_append (separators_keepFrom hGap hRestGaps)
        (forall_mem_keepFrom (fun _ _ hName => hName) hRestNames _) hEnding,
      List.append_assoc (trimEnd tag.gap), ← List.append_assoc _ (trimEnd tag.gap)] at hSame
    exact List.append_cancel_right hSame
  · intro hTrim
    rw [hSource]
    exact hWhole hTrim

/-- The cuts in a tag close up exactly where they leave the text of the tag without the attributes
that are cut out, and this tag is read there. -/
theorem Ends.cutsClose_iff (hQuotes : QuotesWithin other behind)
    (hCut : ∀ name, cut name = true → ∀ c ∈ name.head?, isQuote c = false) :
    tag.CutsClose cut other ↔
      tag.cutText cut = (tag.without cut).source ∧ (tag.without cut).Ends other := by
  rw [hEnds.cutText_eq_iff hCut]
  constructor
  · intro hClose
    exact ⟨fun written hFirst hFirstCut => (hClose.first written hFirst hFirstCut).1,
      hEnds.without hQuotes hClose⟩
  · rintro ⟨hTrim, hLeft⟩
    refine ⟨fun written hFirst hFirstCut => ⟨hTrim written hFirst hFirstCut, ?_⟩, ?_⟩
    · exact ⟨hLeft.nameStops, hLeft.gapStops⟩
    · exact hLeft.attributes.cutsClose

end

end OpenTag

end AccessibleMarkup.Markup
