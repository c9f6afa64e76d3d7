import AccessibleMarkup.Proofs.ClosingCuts
import AccessibleMarkup.Proofs.Gate
import AccessibleMarkup.Proofs.Rereading

/-! The cleanup of a text, character by character: the text is copied, and here and there an ARIA
attribute is left out with the white space before it. Attributes of one name go all or none, so
directly behind such a place no attribute of that name is left. -/
namespace AccessibleMarkup

open AccessibleMarkup.Markup
open AccessibleMarkup.Text

/-- What may come behind a name that stands at a place where names of tags end too. -/
def EndsName (text : List Char) : Prop :=
  Stops continuesName text ∨ text.head? = some '\x00'

/-- The text does not begin with an attribute of that name. -/
def LacksFirst (name text : List Char) : Prop :=
  ∀ blank rest, (∀ c ∈ blank, isBlank c = true) → EndsName rest → text ≠ blank ++ (name ++ rest)

/-- The second text is the first one with these ARIA attributes cut out. The first argument is the
character before the texts, where that one was copied. -/
inductive Cleaned : Option Char → List Char → List Char → List WrittenAttribute → Prop where
  | nil (before : Option Char) : Cleaned before [] [] []
  | copy {before : Option Char} {c : Char} {text left : List Char} {cut : List WrittenAttribute}
      (tail : Cleaned (some c) text left cut) : Cleaned before (c :: text) (c :: left) cut
  | cut {before : Option Char} {blank text left : List Char} {written : WrittenAttribute}
      {cut : List WrittenAttribute} (apart : ∀ c ∈ before, isBlank c = false)
      (blanks : ∀ c ∈ blank, isBlank c = true) (name : IsAttributeName written.name)
      (aria : Aria.isAriaName (String.ofList (lowercase written.name)) = true)
      (ends : written.Ends text) (gone : LacksFirst written.name (keptApart left))
      (tail : Cleaned none text left cut) :
      Cleaned before (blank ++ (written.body ++ text)) (keptApart left) (written :: cut)

namespace Markup

/-- A name ends before a separator. -/
theorem stops_continuesName_of_isSeparator {gap : List Char} (hNonempty : gap ≠ [])
    (hGap : ∀ c ∈ gap, isSeparator c = true) (rest : List Char) :
    Stops continuesName (gap ++ rest) := by
  obtain ⟨c, gap, rfl⟩ := List.exists_cons_of_ne_nil hNonempty
  have hC := hGap c (List.mem_cons_self ..)
  simp only [isSeparator, Bool.or_eq_true, decide_eq_true_eq] at hC
  rcases hC with hC | rfl
  · simp [continuesName, hC]
  · rfl

/-- Separators at the front of a text that something else follows. -/
theorem separators_unique {gap other rest left : List Char}
    (hGap : ∀ c ∈ gap, isSeparator c = true) (hOther : ∀ c ∈ other, isSeparator c = true)
    (hRest : Stops isSeparator rest) (hLeft : Stops isSeparator left)
    (hText : gap ++ rest = other ++ left) : gap = other ∧ rest = left := by
  have hRun : splitRun (fun c _ => isSeparator c) (gap ++ rest) = (gap, rest) :=
    splitRun_eq_iff.2 ⟨rfl, hGap, hRest⟩
  have hOtherRun : splitRun (fun c _ => isSeparator c) (gap ++ rest) = (other, left) :=
    splitRun_eq_iff.2 ⟨hText, hOther, hLeft⟩
  exact Prod.mk.inj (hRun.symm.trans hOtherRun)

theorem IsAttributeName.append {name more : List Char} (hName : IsAttributeName name)
    (hMore : ∀ c ∈ more, continuesName c = true) : IsAttributeName (name ++ more) := by
  cases name with
  | nil => exact hName.elim
  | cons c name =>
      exact ⟨hName.1, List.forall_mem_append.2 ⟨hName.2, hMore⟩⟩

theorem IsAttributeName.stops_isSeparator {name : List Char} (hName : IsAttributeName name)
    (rest : List Char) : Stops isSeparator (name ++ rest) := by
  cases name with
  | nil => exact hName.elim
  | cons c name =>
      have hBegins := hName.1
      simp only [beginsName, Bool.not_eq_true', Bool.or_eq_false_iff] at hBegins
      simp [isSeparator, hBegins.1]

/-- A kept name ends where it ended, whatever is cut out behind it. -/
theorem AttributesEnd.stops_name {cut : WrittenAttribute → Bool} {tag : OpenTag}
    {behind : List Char} {before : Char} {written : WrittenAttribute}
    {rest : List WrittenAttribute}
    (hEnd : AttributesEnd before (written :: rest) (tag.ending ++ behind)) (other : List Char) :
    Stops continuesName ((written.assignment.map Assignment.source).getD [] ++
      ((Markup.keepFrom cut written.gap rest).1 ++
        ((Markup.keepFrom cut written.gap rest).2.flatMap WrittenAttribute.source ++
          (tag.ending ++ other)))) := by
  obtain ⟨-, -, hEnds, hGap, hRest⟩ := hEnd
  have hStops := hEnds.stops_name
  unfold WrittenAttribute.Ends at hEnds
  cases hAssignment : written.assignment with
  | some assignment =>
      rw [hAssignment] at hEnds
      exact Assignment.Ends.lead_stops hEnds _
  | none =>
      rw [hAssignment] at hStops
      simp only [Option.map_none, Option.getD_none, List.nil_append] at hStops ⊢
      have hEnding : tag.ending ≠ [] := by
        unfold OpenTag.ending
        split <;> simp
      cases rest with
      | nil =>
          have hNonempty : written.gap ++ tag.ending ≠ [] := by simp [hEnding]
          simp only [Markup.keepFrom, List.flatMap_nil, List.nil_append] at hStops ⊢
          rw [← List.append_assoc, stops_append_iff hNonempty] at hStops ⊢
          exact hStops
      | cons next more =>
          cases hNext : cut next with
          | false =>
              have hNonempty : written.gap ++ next.name ≠ [] := by simp [hRest.2.1.ne_nil]
              rw [flatMap_source_cons_append, ← List.append_assoc,
                stops_append_iff hNonempty] at hStops
              rw [keepFrom_kept hNext, flatMap_source_cons_append, ← List.append_assoc,
                stops_append_iff hNonempty]
              exact hStops
          | true =>
              have hSeparators := @separators_keepFrom cut _ _ hGap.separators hRest.separators
              by_cases hNone : (Markup.keepFrom cut written.gap (next :: more)).1 = []
              · have hKept : (Markup.keepFrom cut written.gap (next :: more)).2 = [] := by
                  by_contra hKept
                  exact keepFrom_cut_ne_nil hNext written.gap hKept hNone
                rw [hNone, hKept]
                unfold OpenTag.ending
                split <;> rfl
              · exact stops_continuesName_of_isSeparator hNone hSeparators _

/-- No attribute begins before the end of a tag. -/
theorem lacksFirst_ending {tag : OpenTag} {name : List Char} (hName : IsAttributeName name)
    {separators : List Char} (hSeparators : ∀ c ∈ separators, isSeparator c = true)
    (other : List Char) : LacksFirst name (separators ++ (tag.ending ++ other)) := by
  intro blank rest hBlank _ hText
  have hSlash : ∀ c ∈ separators ++ tag.slash, isSeparator c = true := by
    intro c hMem
    rcases List.mem_append.1 hMem with hMem | hMem
    · exact hSeparators c hMem
    · unfold OpenTag.slash at hMem
      split at hMem
      · rw [List.mem_singleton.1 hMem]
        rfl
      · simp at hMem
  have hBlanks : ∀ c ∈ blank, isSeparator c = true := by
    intro c hMem
    simp [isSeparator, hBlank c hMem]
  have hStops : Stops isSeparator ('>' :: other) := rfl
  have hJoin : (separators ++ tag.slash) ++ '>' :: other = blank ++ (name ++ rest) := by
    simpa [OpenTag.ending_eq] using hText
  obtain ⟨-, hSame⟩ :=
    separators_unique hSlash hBlanks hStops (hName.stops_isSeparator rest) hJoin
  cases name with
  | nil => exact hName.elim
  | cons c name =>
      have hC : '>' = c := (List.cons.inj hSame).1
      have hBegins := hName.1
      rw [← hC] at hBegins
      revert hBegins
      decide

/-- An attribute of another name is none of that name, unless the name goes on from that one behind
a null character, which ends the name of a tag and not that of an attribute. -/
theorem lacksFirst_attribute {written name behind : List Char} (hWritten : IsAttributeName written)
    (hName : IsAttributeName name) (hStops : Stops continuesName behind)
    (hOther : written ≠ name) (hLonger : ∀ more, written ≠ name ++ '\x00' :: more)
    {separators : List Char} (hSeparators : ∀ c ∈ separators, isSeparator c = true) :
    LacksFirst name (separators ++ (written ++ behind)) := by
  intro blank rest hBlank hRest hText
  have hBlanks : ∀ c ∈ blank, isSeparator c = true := by
    intro c hMem
    simp [isSeparator, hBlank c hMem]
  obtain ⟨-, hSame⟩ := separators_unique hSeparators hBlanks
    (hWritten.stops_isSeparator _) (hName.stops_isSeparator _) hText
  rcases hRest with hRest | hRest
  · exact hOther (hWritten.unique hName hStops hRest hSame).1
  · obtain ⟨more, rfl⟩ := List.head?_eq_some_iff.1 hRest
    rcases hRun : splitRun (fun c _ => continuesName c) more with ⟨run, left⟩
    obtain ⟨rfl, hContinues, hLeft⟩ := splitRun_eq_iff.1 hRun
    have hLong : IsAttributeName (name ++ '\x00' :: run) :=
      hName.append (List.forall_mem_cons.2 ⟨rfl, hContinues⟩)
    exact hLonger run (hWritten.unique hLong hStops hLeft (by simp [hSame])).1

/-- Behind a cut, no attribute of a name that is cut is left. -/
theorem AttributesEnd.lacksFirst {cut : List Char → Bool} {tag : OpenTag} {behind : List Char}
    {attributes : List WrittenAttribute} {before : Char}
    (hEnd : AttributesEnd before attributes (tag.ending ++ behind)) {name : List Char}
    (hName : IsAttributeName name) (hCut : cut name = true)
    (hLonger : ∀ written ∈ attributes, ∀ rest, written.name = name ++ '\x00' :: rest →
      cut written.name = true)
    {separators : List Char} (hSeparators : ∀ c ∈ separators, isSeparator c = true)
    (gap other : List Char) :
    LacksFirst name (separators ++
      ((Markup.keepFrom (fun written => cut written.name) gap attributes).2.flatMap
        WrittenAttribute.source ++ (tag.ending ++ other))) := by
  induction attributes generalizing before gap with
  | nil => exact lacksFirst_ending hName hSeparators other
  | cons written more ih =>
      have hTail := ih hEnd.2.2.2.2 fun other hMem => hLonger other (List.mem_cons_of_mem _ hMem)
      cases hWritten : cut written.name with
      | true =>
          rw [@keepFrom_cut (fun written => cut written.name) _ hWritten]
          exact hTail written.gap
      | false =>
          have hKept : ∀ {cutName}, cut cutName = true → written.name ≠ cutName := by
            rintro cutName hCutName rfl
            rw [hCutName] at hWritten
            cases hWritten
          rw [@keepFrom_kept (fun written => cut written.name) _ hWritten,
            flatMap_source_cons_append]
          refine lacksFirst_attribute hEnd.2.1 hName
            (@AttributesEnd.stops_name (fun written => cut written.name) _ _ _ _ _ hEnd other)
            (hKept hCut) (fun rest hSame => ?_) hSeparators
          exact hKept (hLonger written (List.mem_cons_self ..) rest hSame) rfl

end Markup

namespace Text

/-- What a text begins with in lower case, it begins with whatever follows. Only a capital sigma
depends on what follows, and there is none in the first half of the code points. -/
theorem prefix_lowercaseOnto_append {start : List Char} (hStart : ∀ c ∈ start, c.toNat < 0x80)
    {afterCased : Bool} {text : List Char} (hPrefix : start <+: lowercaseOnto [] afterCased text)
    (more : List Char) : start <+: lowercaseOnto [] afterCased (text ++ more) := by
  induction text generalizing start afterCased with
  | nil =>
      have hNil : start = [] := by simpa [lowercaseOnto] using hPrefix
      simp [hNil]
  | cons c rest ih =>
      rw [lowercaseOnto, lowercaseOnto_eq] at hPrefix
      rw [List.cons_append, lowercaseOnto, lowercaseOnto_eq]
      simp only [List.append_nil, List.reverse_reverse] at hPrefix ⊢
      by_cases hSigma : c.toNat = 0x3A3
      · cases start with
        | nil => exact List.nil_prefix
        | cons d start =>
            have hD := hStart d (List.mem_cons_self ..)
            simp only [lowerInContext, hSigma, if_true] at hPrefix
            split at hPrefix <;> obtain ⟨rfl, -⟩ := List.cons_prefix_cons.1 hPrefix <;>
              exact absurd hD (by decide)
      · have hSame :
            lowerInContext afterCased c (rest ++ more) = lowerInContext afterCased c rest := by
          simp [lowerInContext, hSigma]
        rw [hSame]
        rcases List.prefix_or_prefix_of_prefix hPrefix (List.prefix_append _ _) with
          hShort | ⟨later, rfl⟩
        · exact hShort.trans (List.prefix_append _ _)
        · rw [List.prefix_append_right_inj] at hPrefix ⊢
          exact ih (fun d hMem => hStart d (List.mem_append_right _ hMem)) hPrefix

/-- A character that is its own lower case in any context is in the lower case of a text. -/
theorem mem_lowercaseOnto {c : Char}
    (hLower : ∀ afterCased rest, lowerInContext afterCased c rest = [c])
    {text : List Char} (hMem : c ∈ text) (afterCased : Bool) :
    c ∈ lowercaseOnto [] afterCased text := by
  induction text generalizing afterCased with
  | nil => simp at hMem
  | cons d rest ih =>
      rw [lowercaseOnto, lowercaseOnto_eq]
      rcases List.mem_cons.1 hMem with rfl | hMem
      · simp [hLower]
      · exact List.mem_append_right _ (ih hMem _)

end Text

namespace Aria

/-- A name that begins as the name of an ARIA attribute is one itself. -/
theorem isAriaName_append {name : List Char}
    (hAria : isAriaName (String.ofList (lowercase name)) = true) (more : List Char) :
    isAriaName (String.ofList (lowercase (name ++ more))) = true := by
  simp only [isAriaName, String.toList_ofList, List.isPrefixOf_iff_prefix] at hAria ⊢
  have hAscii : ∀ c ∈ "aria-".toList, c.toNat < 0x80 := by simp
  exact prefix_lowercaseOnto_append hAscii hAria more

/-- The ARIA attributes that the cleanup keeps are recognised. -/
theorem mem_knownNames_of_kept {tag : OpenTag} {written : WrittenAttribute}
    (hMem : written ∈ tag.attributes)
    (hAria : isAriaName (String.ofList (lowercase written.name)) = true)
    (hKept : cuts tag written.name = false) :
    String.ofList (lowercase written.name) ∈ knownNames := by
  obtain ⟨known, hKnown, hName⟩ :=
    List.mem_map.1 (mem_names_readAttributes.2 ⟨written, hMem, rfl⟩)
  by_contra hNew
  have hCuts : cuts tag written.name = true := by
    refine List.contains_iff_mem.2 (List.mem_map.2 ⟨known, List.mem_filter.2 ⟨hKnown, ?_⟩, hName⟩)
    rw [hName]
    simp [hAria, isValid, hNew]
  simp [hKept] at hCuts

/-- Where a name is cut, so is every longer one that goes on with a null. -/
theorem cuts_of_longer {tag : OpenTag} {name : List Char} (hCuts : cuts tag name = true)
    {written : WrittenAttribute} (hMem : written ∈ tag.attributes) {rest : List Char}
    (hLonger : written.name = name ++ '\x00' :: rest) : cuts tag written.name = true := by
  by_contra hKept
  have hAria := isAriaName_append (isAriaName_of_cuts hCuts) ('\x00' :: rest)
  rw [← hLonger] at hAria
  have hKnown := mem_knownNames_of_kept hMem hAria (by simpa using hKept)
  have hNull : '\x00' ∈ lowercase written.name :=
    mem_lowercaseOnto (fun _ _ => rfl) (by simp [hLonger]) false
  have hNone : ∀ known ∈ knownNames, '\x00' ∉ known.toList := by decide
  exact hNone _ hKnown (by simpa using hNull)

end Aria

namespace Cleaned

/-- A piece of text is copied. -/
theorem append {before : Option Char} {text left : List Char} {cut : List WrittenAttribute}
    (front : List Char) (hTail : Cleaned (front.getLast?.or before) text left cut) :
    Cleaned before (front ++ text) (front ++ left) cut := by
  induction front generalizing before with
  | nil => exact hTail
  | cons c front ih =>
      refine .copy (ih ?_)
      cases front with
      | nil => exact hTail
      | cons d front => simpa [List.getLast?_cons] using hTail

end Cleaned

namespace Markup

/-- What is left directly behind a cut: separators, the attributes that are kept, and the end of the
tag. -/
theorem AttributesEnd.keptApart_cutFrom {cut : WrittenAttribute → Bool} {tag : OpenTag}
    {behind : List Char} {attributes : List WrittenAttribute} {last : Char}
    (hEnd : AttributesEnd last attributes (tag.ending ++ behind))
    (hQuotes : ∀ written, cut written = true → ∀ c ∈ written.name.head?, isQuote c = false)
    {gap : List Char} (hGap : ∀ c ∈ gap, isSeparator c = true) :
    ∃ separators, (∀ c ∈ separators, isSeparator c = true) ∧
      ∀ other, keptApart (cutFrom cut tag.ending gap attributes ++ other) =
        separators ++ ((Markup.keepFrom cut gap attributes).2.flatMap WrittenAttribute.source ++
          (tag.ending ++ other)) := by
  have hNames := hEnd.names
  have hEnding (other : List Char) : ∀ c ∈ (tag.ending ++ other).head?, c = '/' ∨ c = '>' := by
    unfold OpenTag.ending
    split <;> simp
  have hTagEnding : ∀ c ∈ tag.ending.head?, c = '/' ∨ c = '>' := by
    simpa using hEnding []
  have hClear := hEnd.cutsStandClear cut fun written _ => hQuotes written
  have hLeft :=
    cutFrom_eq_keepFrom hNames hGap hEnd.separators hClear hTagEnding [] fun _ _ _ => rfl
  have hSeparators := @separators_keepFrom cut _ _ hGap hEnd.separators
  have hKept : ∀ written ∈ (Markup.keepFrom cut gap attributes).2, IsAttributeName written.name :=
    forall_mem_keepFrom (fun _ _ hName => hName) hNames gap
  rw [List.nil_append, List.nil_append] at hLeft
  refine ⟨keptGap (Markup.keepFrom cut gap attributes).1 (Markup.keepFrom cut gap attributes).2, ?_,
    fun other => ?_⟩
  · unfold keptGap
    split
    · intro c hMem
      rw [List.mem_singleton.1 hMem]
      rfl
    · exact hSeparators
  · rw [hLeft, List.append_assoc, List.append_assoc]
    exact keptApart_append hSeparators hKept (hEnding other)

/-- Cutting attributes out of a tag copies its text and leaves the attributes out. -/
theorem AttributesEnd.cleaned {cut : List Char → Bool} {tag : OpenTag} {behind other : List Char}
    {removed : List WrittenAttribute}
    (hAria : ∀ name, cut name = true → Aria.isAriaName (String.ofList (lowercase name)) = true)
    (hTail : ∀ before, Cleaned before behind other removed)
    {attributes : List WrittenAttribute} {last : Char}
    (hEnd : AttributesEnd last attributes (tag.ending ++ behind))
    (hLonger : ∀ written ∈ attributes, ∀ name, cut name = true →
      ∀ rest, written.name = name ++ '\x00' :: rest → cut written.name = true)
    {before : Option Char} {front : List Char}
    (hBefore : trimEnd front = [] → ∀ c ∈ before, isBlank c = false) :
    Cleaned before (front ++ (attributes.flatMap WrittenAttribute.source ++ (tag.ending ++ behind)))
      (cutFrom (fun written => cut written.name) tag.ending front attributes ++ other)
      (attributes.filter (fun written => cut written.name) ++ removed) := by
  induction attributes generalizing last before front with
  | nil =>
      have hAll := @Cleaned.append before behind other removed (front ++ tag.ending) (hTail _)
      simpa [cutFrom] using hAll
  | cons written rest ih =>
      obtain ⟨-, hName, hEnds, hGap, hRest⟩ := hEnd
      have hRestLonger := fun other hMem => hLonger other (List.mem_cons_of_mem _ hMem)
      cases hCut : cut written.name with
      | false =>
          have hSolid : trimEnd written.source ≠ [] := by
            intro hNil
            have hBlank := allBlank_of_trimEnd hNil
            rw [WrittenAttribute.source, WrittenAttribute.body, List.append_assoc] at hBlank
            exact not_allBlank_append hName _ hBlank
          have hLater := @ih _ hRest hRestLonger (front.getLast?.or before) written.source
            fun hNil => absurd hNil hSolid
          have hAll := Cleaned.append front hLater
          simpa [cutFrom, hCut] using hAll
      | true =>
          have hLater := @ih _ hRest hRestLonger none written.gap (by simp)
          obtain ⟨blank, hFront, hBlank⟩ := trimEnd_append_blank front
          obtain ⟨separators, hSeparators, hLeft⟩ := hRest.keptApart_cutFrom
            (fun other hOther => Aria.isQuote_of_isAriaName (hAria other.name hOther))
            hGap.separators
          have hApart : ∀ c ∈ (trimEnd front).getLast?.or before, isBlank c = false := by
            intro c hMem
            cases hLast : (trimEnd front).getLast? with
            | none =>
                rw [hLast, Option.none_or] at hMem
                exact hBefore (List.getLast?_eq_none_iff.1 hLast) c hMem
            | some d =>
                rw [hLast, Option.some_or] at hMem
                rw [← Option.mem_some_iff.1 hMem]
                exact not_isBlank_getLast?_trimEnd hLast
          have hGone : LacksFirst written.name (keptApart
              (cutFrom (fun written => cut written.name) tag.ending written.gap rest ++ other)) := by
            rw [hLeft other]
            exact hRest.lacksFirst hName hCut (fun other hMem => hRestLonger other hMem _ hCut)
              hSeparators written.gap other
          have hHere := Cleaned.append (trimEnd front)
            (.cut hApart hBlank hName (hAria _ hCut) hEnds hGone hLater)
          have hText : front ++ ((written :: rest).flatMap WrittenAttribute.source ++
              (tag.ending ++ behind)) = trimEnd front ++ (blank ++ (written.body ++ (written.gap ++
                (rest.flatMap WrittenAttribute.source ++ (tag.ending ++ behind))))) := by
            rw [← List.append_assoc (trimEnd front), ← hFront]
            simp [WrittenAttribute.source]
          have hOut : cutFrom (fun written => cut written.name) tag.ending front (written :: rest) ++
              other = trimEnd front ++ keptApart
                (cutFrom (fun written => cut written.name) tag.ending written.gap rest ++ other) := by
            have hNone := hLeft []
            simp only [List.append_nil] at hNone
            rw [cutFrom, if_pos hCut, hLeft other, hNone]
            simp
          rw [hText, hOut]
          simp only [List.filter_cons, hCut, if_true]
          exact hHere

end Markup

namespace Aria

def removed (tokens : List Token) : List WrittenAttribute :=
  tokens.flatMap fun token =>
    match token.content with
    | .openTag tag => tag.attributes.filter fun written => cuts tag written.name
    | _ => []

theorem removed_cons_openTag {token : Token} {tag : OpenTag} (rest : List Token)
    (hContent : token.content = .openTag tag) :
    removed (token :: rest) =
      (tag.attributes.filter fun written => cuts tag written.name) ++ removed rest := by
  simp [removed, hContent]

theorem removed_cons_other {token : Token} (rest : List Token)
    (hOther : ∀ tag, token.content ≠ .openTag tag) : removed (token :: rest) = removed rest := by
  rw [removed, List.flatMap_cons]
  split
  · rename_i tag hContent
    exact absurd hContent (hOther tag)
  · rfl

/-- The cleanup copies the text and leaves the invalid ARIA attributes of its tags out. -/
theorem cleaned_rewriteTags {dropped : List Char} {tokens : List Token}
    (hEnd : TagsEnd dropped tokens) (before : Option Char) :
    Cleaned before (tokens.flatMap Token.source ++ dropped)
      (rewriteTags cleanTag tokens ++ dropped) (removed tokens) := by
  induction tokens generalizing before with
  | nil =>
      have hAll := @Cleaned.append before [] [] [] dropped (.nil _)
      simpa [rewriteTags, removed] using hAll
  | cons token rest ih =>
      have hTail := ih hEnd.2
      rw [List.flatMap_cons, List.append_assoc]
      rcases token.content.openTag_or_other with ⟨tag, hContent⟩ | hOther
      · obtain ⟨hSource, hEnds⟩ := hEnd.1 tag hContent
        have hTrim : trimEnd ('<' :: tag.name ++ tag.gap) ≠ [] := by
          intro hNil
          have hBlank := allBlank_of_trimEnd hNil
          simp [allBlank, isBlank] at hBlank
        have hTag := @AttributesEnd.cleaned (cuts tag) tag _ _ _
          (fun name hCuts => isAriaName_of_cuts hCuts) hTail _ _ hEnds.attributes
          (fun written hMem name hCuts more hLonger => cuts_of_longer hCuts hMem hLonger) before
          ('<' :: tag.name ++ tag.gap) fun hNil => absurd hNil hTrim
        have hText : token.source ++ (rest.flatMap Token.source ++ dropped) =
            '<' :: tag.name ++ tag.gap ++ (tag.attributes.flatMap WrittenAttribute.source ++
              (tag.ending ++ (rest.flatMap Token.source ++ dropped))) := by
          simp [hSource, OpenTag.source, OpenTag.sourceTail]
        rw [hText, removed_cons_openTag rest hContent, rewriteTags_cons_openTag _ hContent,
          List.append_assoc (cleanTag tag)]
        exact hTag
      · rw [removed_cons_other rest hOther, rewriteTags_cons_other _ hOther, List.append_assoc]
        exact Cleaned.append token.source (hTail _)

end Aria

end AccessibleMarkup
