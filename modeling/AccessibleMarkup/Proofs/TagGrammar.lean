import AccessibleMarkup.Markup.OpenTag
import AccessibleMarkup.Proofs.Assignment

/-! Attributes and opening tags as a grammar. It says of what is read and of what follows it when
the reader takes exactly that, so a tag that is changed in one place can be read again without
going through the reader. -/
namespace AccessibleMarkup.Markup

open AccessibleMarkup.Text

/-- A name of an attribute. It may begin with an equals sign. -/
def IsAttributeName : List Char → Prop
  | [] => False
  | c :: rest => beginsName c = true ∧ ∀ d ∈ rest, continuesName d = true

theorem IsAttributeName.ne_nil {name : List Char} (hName : IsAttributeName name) : name ≠ [] := by
  rintro rfl
  exact hName

/-- A text has one attribute name at its front. -/
theorem IsAttributeName.unique {name other rest left : List Char}
    (hName : IsAttributeName name) (hOther : IsAttributeName other)
    (hRest : Stops continuesName rest) (hLeft : Stops continuesName left)
    (hText : name ++ rest = other ++ left) : name = other ∧ rest = left := by
  cases name with
  | nil => exact hName.elim
  | cons c name =>
      cases other with
      | nil => exact hOther.elim
      | cons d other =>
          rw [List.cons_append, List.cons_append, List.cons.injEq] at hText
          obtain ⟨rfl, hTail⟩ := hText
          have hRun : splitRun (fun c _ => continuesName c) (name ++ rest) = (name, rest) :=
            splitRun_eq_iff.2 ⟨rfl, hName.2, hRest⟩
          have hOtherRun : splitRun (fun c _ => continuesName c) (other ++ left) = (other, left) :=
            splitRun_eq_iff.2 ⟨rfl, hOther.2, hLeft⟩
          rw [hTail] at hRun
          have hBoth := Prod.mk.inj (hRun.symm.trans hOtherRun)
          exact ⟨by rw [hBoth.1], hBoth.2⟩

/-- The name and the assignment of an attribute end before what follows them. -/
def WrittenAttribute.Ends (written : WrittenAttribute) (following : List Char) : Prop :=
  match written.assignment with
  | none => Stops continuesName following ∧ readAssignment? following = none
  | some assignment => assignment.Ends following

/-- A gap takes in no more of the text. -/
def GapStops (gap rest : List Char) : Prop :=
  splitGap (gap ++ rest) = (gap, rest)

/-- Separators are split off in their whole length. -/
theorem gapStops_of_splitGap {text gap rest : List Char} (hSplit : splitGap text = (gap, rest)) :
    GapStops gap rest := by
  have hJoin := splitGap_append text
  rw [hSplit] at hJoin
  rwa [← hJoin] at hSplit

/-- A separator never begins the text: white space, or a slash that does not end the tag. -/
def BeginsNoGap : List Char → Prop
  | [] => True
  | c :: rest => isBlank c = false ∧ (c = '/' → rest.head? = some '>')

@[simp] theorem beginsNoGap_nil : BeginsNoGap [] := trivial

/-- A gap is made of white space and slashes, but a slash at its end must not end the tag. -/
theorem gapStops_iff {gap rest : List Char} :
    GapStops gap rest ↔
      (∀ c ∈ gap, isBlank c = true ∨ c = '/') ∧
        (gap.getLast? = some '/' → rest.head? ≠ some '>') ∧ BeginsNoGap rest := by
  have hSlash : isBlank '/' = false := by decide
  induction gap with
  | nil =>
      cases rest with
      | nil => simp [GapStops, splitGap]
      | cons c rest =>
          by_cases hBlank : isBlank c = true
          · simp [GapStops, splitGap, splitRun_cons, hBlank, BeginsNoGap]
          · by_cases hC : c = '/'
            · by_cases hHead : rest.head? = some '>'
              · simp [GapStops, splitGap, splitRun_cons, hC, hSlash, hHead, BeginsNoGap]
              · simp [GapStops, splitGap, splitRun_cons, hC, hHead, BeginsNoGap]
            · simp [GapStops, splitGap, splitRun_cons, hBlank, hC, BeginsNoGap]
  | cons c gap ih =>
      have hCons : GapStops (c :: gap) rest ↔
          (isBlank c || (c = '/' && (gap ++ rest).head? != some '>')) = true ∧
            GapStops gap rest := by
        simp only [GapStops, splitGap, List.cons_append, splitRun_cons]
        split
        · rename_i hKeep
          simp only [hKeep, true_and]
          constructor
          · intro hSplit
            simp only [Prod.mk.injEq, List.cons.injEq, true_and] at hSplit
            exact Prod.ext hSplit.1 hSplit.2
          · intro hSplit
            rw [hSplit]
        · rename_i hKeep
          simp only [hKeep, Bool.false_eq_true, false_and, iff_false]
          intro hSplit
          simp at hSplit
      refine hCons.trans ((and_congr_right fun _ => ih).trans ?_)
      cases gap with
      | nil =>
          by_cases hC : c = '/'
          · simp [hC, hSlash]
          · simp [hC]
      | cons d gap =>
          simp only [List.cons_append, List.head?_cons, List.getLast?_cons_cons,
            List.forall_mem_cons]
          constructor
          · rintro ⟨hKeep, hGap, hLast⟩
            refine ⟨⟨?_, hGap⟩, hLast⟩
            simp only [Bool.or_eq_true, Bool.and_eq_true, decide_eq_true_eq] at hKeep
            exact hKeep.imp id fun hSlash => hSlash.1
          · rintro ⟨⟨hKeep, hD, hGap⟩, hLast⟩
            refine ⟨?_, ⟨hD, hGap⟩, hLast⟩
            have hEnd : d ≠ '>' := by
              rintro rfl
              revert hD
              decide
            simpa [hEnd] using hKeep

def isSeparator (c : Char) : Bool :=
  isBlank c || c = '/'

theorem GapStops.separators {gap rest : List Char} (hGap : GapStops gap rest) :
    ∀ c ∈ gap, isSeparator c = true := by
  intro c hMem
  have hC := (gapStops_iff.1 hGap).1 c hMem
  simpa [isSeparator] using hC

/-- The name of an attribute does not go on into its assignment. -/
theorem Assignment.Ends.lead_stops {assignment : Assignment} {following : List Char}
    (hEnds : assignment.Ends following) (rest : List Char) :
    Stops continuesName (assignment.source ++ rest) := by
  have hLead (before signs behind rest : List Char) (hLead : IsLead before signs behind) :
      Stops continuesName (before ++ signs ++ behind ++ rest) := by
    cases before with
    | nil =>
        obtain ⟨c, tail, rfl⟩ := List.exists_cons_of_ne_nil hLead.signs_ne_nil
        rw [hLead.signs_eq c (List.mem_cons_self ..)]
        rfl
    | cons c tail =>
        have hBlank := hLead.before_blank c (List.mem_cons_self ..)
        simp [continuesName, hBlank]
  cases hEnds with
  | quoted lead => simpa [source] using hLead _ _ _ _ lead
  | bare lead => simpa [source] using hLead _ _ _ _ lead
  | @beforeBlank before signs behind tail blank mark lead =>
      have hShorter : IsLead before signs behind :=
        ⟨lead.before_blank, lead.signs_ne_nil, lead.signs_eq,
          fun c hMem => lead.behind_blank c (List.mem_append_left _ hMem)⟩
      simpa [source] using hLead _ _ _ _ hShorter
  | beforeSign lead => simpa [source] using hLead _ _ [] _ lead

/-- The name of an attribute ends where its assignment or what follows begins. -/
theorem WrittenAttribute.Ends.stops_name {written : WrittenAttribute} {following : List Char}
    (hEnds : written.Ends following) :
    Stops continuesName ((written.assignment.map Assignment.source).getD [] ++ following) := by
  unfold WrittenAttribute.Ends at hEnds
  split at hEnds
  · rename_i hNone
    simpa [hNone] using hEnds.1
  · rename_i assignment hSome
    simpa [hSome] using Assignment.Ends.lead_stops hEnds following

/-- An attribute's text in the order the reader goes through it. -/
theorem WrittenAttribute.source_append (c : Char) (name gap rest : List Char)
    (assignment : Option Assignment) :
    WrittenAttribute.source ⟨c :: name, assignment, gap⟩ ++ rest =
      c :: (name ++ ((assignment.map Assignment.source).getD [] ++ (gap ++ rest))) := by
  simp [WrittenAttribute.source, WrittenAttribute.body]

/-- The reader takes all of an attribute's name, and nothing of what stands behind it. -/
theorem WrittenAttribute.Ends.splitRun_name {c : Char} {name gap following : List Char}
    {assignment : Option Assignment}
    (hEnds : WrittenAttribute.Ends ⟨c :: name, assignment, gap⟩ following)
    (hContinues : ∀ d ∈ name, continuesName d = true) :
    splitRun (fun c _ => continuesName c)
        (name ++ ((assignment.map Assignment.source).getD [] ++ following)) =
      (name, (assignment.map Assignment.source).getD [] ++ following) :=
  splitRun_eq_iff.2 ⟨rfl, hContinues, hEnds.stops_name⟩

/-- The reader takes an attribute exactly where its name may begin, its name and assignment end
before what follows and its gap is all that separates it from there. -/
theorem readAttribute?_eq_some_iff {before : Char} {text rest : List Char}
    {written : WrittenAttribute} :
    readAttribute? before text = some (written, rest) ↔
      text = written.source ++ rest ∧ admitsAttribute before = true ∧
        IsAttributeName written.name ∧ written.Ends (written.gap ++ rest) ∧
        GapStops written.gap rest := by
  constructor
  · intro hRead
    refine ⟨(source_append_of_readAttribute? hRead).symm, ?_⟩
    unfold readAttribute? at hRead
    split at hRead
    · simp at hRead
    · rename_i c tail
      split at hRead
      · rename_i hBegins
        simp only [Bool.and_eq_true] at hBegins
        rcases hName : splitRun (fun c _ => continuesName c) tail with ⟨name, behind⟩
        obtain ⟨-, hContinues, hStops⟩ := splitRun_eq_iff.1 hName
        simp only [hName] at hRead
        split at hRead
        · rename_i assignment following hAssignment
          rcases hGap : splitGap following with ⟨gap, left⟩
          simp only [hGap] at hRead
          cases hRead
          have hJoin := splitGap_append following
          rw [hGap] at hJoin
          exact ⟨hBegins.1, ⟨hBegins.2, hContinues⟩,
            hJoin ▸ (readAssignment?_eq_some_iff.1 hAssignment).2, gapStops_of_splitGap hGap⟩
        · rename_i hNone
          rcases hGap : splitGap behind with ⟨gap, left⟩
          simp only [hGap] at hRead
          cases hRead
          have hJoin := splitGap_append behind
          rw [hGap] at hJoin
          exact ⟨hBegins.1, ⟨hBegins.2, hContinues⟩, hJoin ▸ ⟨hStops, hNone⟩,
            gapStops_of_splitGap hGap⟩
      · simp at hRead
  · rintro ⟨rfl, hBefore, hName, hEnds, hGap⟩
    obtain ⟨name, assignment, gap⟩ := written
    cases name with
    | nil => exact hName.elim
    | cons c name =>
        obtain ⟨hBegins, hContinues⟩ := hName
        dsimp only at hEnds hGap
        have hGapSplit : splitGap (gap ++ rest) = (gap, rest) := hGap
        rw [WrittenAttribute.source_append]
        simp only [readAttribute?, hBefore, hBegins, Bool.and_self, if_true,
          hEnds.splitRun_name hContinues]
        cases assignment with
        | none =>
            simp only [Option.map_none, Option.getD_none, List.nil_append, hEnds.2, hGapSplit]
        | some assignment =>
            simp only [Option.map_some, Option.getD_some,
              readAssignment?_eq_some_iff.2 ⟨rfl, hEnds⟩, hGapSplit]

/-- No attribute begins there. -/
theorem readAttribute?_eq_none_iff {before : Char} {text : List Char} :
    readAttribute? before text = none ↔
      admitsAttribute before = false ∨ Stops beginsName text := by
  cases text with
  | nil => simp [readAttribute?]
  | cons c rest =>
      by_cases hBegins : (admitsAttribute before && beginsName c) = true
      · simp only [readAttribute?, hBegins, if_true]
        simp only [Bool.and_eq_true] at hBegins
        simp only [hBegins.1, stops_cons, hBegins.2, Bool.true_eq_false, or_self, iff_false]
        split <;> simp
      · simp only [readAttribute?, hBegins, Bool.false_eq_true, if_false, true_iff]
        simpa [Bool.and_eq_true, Classical.or_iff_not_imp_left] using hBegins

/-- Attributes that the reader takes one after the other, up to a place where none begins. -/
def AttributesEnd (before : Char) : List WrittenAttribute → List Char → Prop
  | [], rest => readAttribute? before rest = none
  | written :: more, rest =>
    admitsAttribute before = true ∧ IsAttributeName written.name ∧
      written.Ends (written.gap ++ (more.flatMap WrittenAttribute.source ++ rest)) ∧
      GapStops written.gap (more.flatMap WrittenAttribute.source ++ rest) ∧
      AttributesEnd (lastOr before written.source) more rest

/-- Attributes are read one after the other up to a place where none begins, and in no other way. -/
theorem readAttributes_eq_iff {before : Char} {text rest : List Char}
    {attributes : List WrittenAttribute} :
    readAttributes before text = (attributes, rest) ↔
      text = attributes.flatMap WrittenAttribute.source ++ rest ∧
        AttributesEnd before attributes rest := by
  constructor
  · intro hRead
    have hJoin := readAttributes_append before text
    rw [hRead] at hJoin
    refine ⟨hJoin.symm, ?_⟩
    induction attributes generalizing before text with
    | nil =>
        cases hFirst : readAttribute? before text with
        | none =>
            rw [readAttributes_of_none hFirst] at hRead
            cases hRead
            exact hFirst
        | some read =>
            rw [readAttributes_of_some hFirst] at hRead
            simp at hRead
    | cons written more ih =>
        cases hFirst : readAttribute? before text with
        | none =>
            rw [readAttributes_of_none hFirst] at hRead
            simp at hRead
        | some read =>
            obtain ⟨found, behind⟩ := read
            rw [readAttributes_of_some hFirst] at hRead
            simp only [Prod.mk.injEq, List.cons.injEq] at hRead
            obtain ⟨⟨rfl, hMore⟩, hRest⟩ := hRead
            have hTail := readAttributes_append (lastOr before found.source) behind
            rw [hMore, hRest] at hTail
            subst hTail
            obtain ⟨-, hAdmits, hName, hEnds, hGap⟩ := readAttribute?_eq_some_iff.1 hFirst
            exact ⟨hAdmits, hName, hEnds, hGap, ih (Prod.ext hMore hRest) rfl⟩
  · rintro ⟨rfl, hEnd⟩
    induction attributes generalizing before with
    | nil => exact readAttributes_of_none hEnd
    | cons written more ih =>
        obtain ⟨hAdmits, hName, hEnds, hGap, hMore⟩ := hEnd
        rw [List.flatMap_cons, List.append_assoc,
          readAttributes_of_some (readAttribute?_eq_some_iff.2 ⟨rfl, hAdmits, hName, hEnds, hGap⟩),
          ih hMore]

/-- An attribute may follow a gap. -/
theorem admitsAttribute_lastOr {gap : List Char} (hNonempty : gap ≠ [])
    (hGap : ∀ c ∈ gap, isSeparator c = true) (before : Char) (front : List Char) :
    admitsAttribute (lastOr before (front ++ gap)) = true := by
  obtain ⟨init, last, rfl⟩ : ∃ init last, gap = init ++ [last] :=
    ⟨_, _, (List.dropLast_concat_getLast hNonempty).symm⟩
  rw [← List.append_assoc, lastOr, List.getLast?_concat, Option.getD_some]
  have hLast := hGap last (by simp)
  simp only [isSeparator, Bool.or_eq_true] at hLast
  rcases hLast with hLast | hLast <;> simp [admitsAttribute, hLast]

def IsTagName : List Char → Prop
  | [] => False
  | c :: rest => isLetter c = true ∧ ∀ d ∈ rest, continuesTagName d = true

/-- A tag name holds nothing that ends it. -/
theorem IsTagName.continues {name : List Char} (hName : IsTagName name) :
    ∀ c ∈ name, continuesTagName c = true := by
  cases name with
  | nil => exact hName.elim
  | cons c name =>
      intro d hMem
      rcases List.mem_cons.1 hMem with rfl | hMem
      · have hLetter := hName.1
        cases hContinues : continuesTagName d with
        | true => rfl
        | false =>
            simp only [continuesTagName, Bool.not_eq_false', Bool.or_eq_true, decide_eq_true_eq]
              at hContinues
            rcases hContinues with ((((((rfl | rfl) | rfl) | rfl) | rfl) | rfl) | rfl) | rfl <;>
              revert hLetter <;> decide
      · exact hName.2 d hMem

/-- A tag name is read in its whole length. -/
theorem readTagName?_eq_some_iff {text name rest : List Char} :
    readTagName? text = some (name, rest) ↔
      text = name ++ rest ∧ IsTagName name ∧ Stops continuesTagName rest := by
  constructor
  · intro hRead
    refine ⟨(append_of_readTagName? hRead).symm, ?_⟩
    unfold readTagName? at hRead
    split at hRead
    · simp at hRead
    · rename_i c tail
      split at hRead
      · rename_i hLetter
        rcases hName : splitRun (fun c _ => continuesTagName c) tail with ⟨name, behind⟩
        obtain ⟨-, hContinues, hStops⟩ := splitRun_eq_iff.1 hName
        simp only [hName] at hRead
        cases hRead
        exact ⟨⟨hLetter, hContinues⟩, hStops⟩
      · simp at hRead
  · rintro ⟨rfl, hName, hStops⟩
    cases name with
    | nil => exact hName.elim
    | cons c name =>
        have hSplit : splitRun (fun c _ => continuesTagName c) (name ++ rest) = (name, rest) :=
          splitRun_eq_iff.2 ⟨rfl, hName.2, hStops⟩
        simp [readTagName?, hName.1, hSplit]

namespace OpenTag

/-- What stands behind the gap of a tag, but for the end of the tag. -/
def attributeText (tag : OpenTag) : List Char :=
  tag.attributes.flatMap WrittenAttribute.source

theorem sourceTail_eq_append (tag : OpenTag) :
    tag.sourceTail = tag.name ++ (tag.gap ++ (tag.attributeText ++ tag.ending)) := by
  simp [sourceTail, attributeText]

theorem source_eq_append (tag : OpenTag) :
    tag.source = '<' :: tag.name ++ (tag.gap ++ (tag.attributeText ++ tag.ending)) := by
  rw [source, sourceTail_eq_append, List.cons_append]

/-- The reader takes the tag where this text follows it. -/
structure Ends (tag : OpenTag) (behind : List Char) : Prop where
  name : IsTagName tag.name
  nameStops :
    Stops continuesTagName (tag.gap ++ (tag.attributeText ++ (tag.ending ++ behind)))
  gapStops : GapStops tag.gap (tag.attributeText ++ (tag.ending ++ behind))
  attributes : AttributesEnd (lastOr '<' (tag.name ++ tag.gap)) tag.attributes
    (tag.ending ++ behind)

end OpenTag

/-- The reader takes a tag exactly where each of its parts ends before the next. -/
theorem readOpenTag_eq_complete_iff {text behind : List Char} {tag : OpenTag} :
    readOpenTag text = .complete tag behind ↔
      text = tag.sourceTail ++ behind ∧ tag.Ends behind := by
  constructor
  · intro hRead
    refine ⟨(sourceTail_append_of_readOpenTag hRead).symm, ?_⟩
    unfold readOpenTag at hRead
    split at hRead
    · simp at hRead
    · rename_i name afterName hName
      obtain ⟨-, hIsName, hNameStops⟩ := readTagName?_eq_some_iff.1 hName
      rcases hGap : splitGap afterName with ⟨gap, afterGap⟩
      rcases hAttributes : readAttributes (lastOr '<' (name ++ gap)) afterGap with
        ⟨attributes, left⟩
      have hJoin := splitGap_append afterName
      rw [hGap] at hJoin
      subst hJoin
      obtain ⟨rfl, hEnd⟩ := readAttributes_eq_iff.1 hAttributes
      simp only [hGap, hAttributes] at hRead
      split at hRead <;> cases hRead
      · exact ⟨hIsName, by simpa [OpenTag.attributeText, OpenTag.ending] using hNameStops,
          by simpa [GapStops, OpenTag.attributeText, OpenTag.ending] using hGap,
          by simpa [OpenTag.ending] using hEnd⟩
      · exact ⟨hIsName, by simpa [OpenTag.attributeText, OpenTag.ending] using hNameStops,
          by simpa [GapStops, OpenTag.attributeText, OpenTag.ending] using hGap,
          by simpa [OpenTag.ending] using hEnd⟩
  · rintro ⟨rfl, hEnds⟩
    have hName : readTagName? (tag.sourceTail ++ behind) =
        some (tag.name, tag.gap ++ (tag.attributeText ++ (tag.ending ++ behind))) :=
      readTagName?_eq_some_iff.2
        ⟨by simp [OpenTag.sourceTail, OpenTag.attributeText], hEnds.name, hEnds.nameStops⟩
    have hGap : splitGap (tag.gap ++ (tag.attributeText ++ (tag.ending ++ behind))) =
        (tag.gap, tag.attributeText ++ (tag.ending ++ behind)) := hEnds.gapStops
    have hAttributes : readAttributes (lastOr '<' (tag.name ++ tag.gap))
        (tag.attributeText ++ (tag.ending ++ behind)) = (tag.attributes, tag.ending ++ behind) :=
      readAttributes_eq_iff.2 ⟨rfl, hEnds.attributes⟩
    simp only [readOpenTag, hName, hGap, hAttributes]
    obtain ⟨name, gap, attributes, selfClosed⟩ := tag
    cases selfClosed <;> rfl

end AccessibleMarkup.Markup
