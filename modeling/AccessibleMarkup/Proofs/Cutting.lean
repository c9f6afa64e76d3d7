import AccessibleMarkup.Proofs.Splicing
import AccessibleMarkup.Proofs.TagAttributes
import Mathlib.Data.List.TakeWhile

/-! Cutting attributes out of a tag. The cuts are made one after the other from the end of the tag
to its front; they come to one pass from the front to the end that leaves out what is cut. -/
namespace AccessibleMarkup.Markup

open AccessibleMarkup.Text

/-- The text of a tag from `before` on, without the attributes that are cut. What stands directly
before a cut loses the white space at its end. -/
def cutFrom (cut : WrittenAttribute → Bool) (ending before : List Char) :
    List WrittenAttribute → List Char
  | [] => before ++ ending
  | written :: rest =>
    if cut written then trimEnd before ++ keptApart (cutFrom cut ending written.gap rest)
    else before ++ cutFrom cut ending written.source rest

def OpenTag.cutText (tag : OpenTag) (cut : List Char → Bool) : List Char :=
  cutFrom (fun written => cut written.name) tag.ending ('<' :: tag.name ++ tag.gap) tag.attributes

/-- A tag keeps its text where no attribute is cut. -/
theorem cutFrom_eq_append {cut : WrittenAttribute → Bool} {attributes : List WrittenAttribute}
    (hNone : ∀ written ∈ attributes, cut written = false) (ending before : List Char) :
    cutFrom cut ending before attributes =
      before ++ attributes.flatMap WrittenAttribute.source ++ ending := by
  induction attributes generalizing before with
  | nil => simp [cutFrom]
  | cons written rest ih =>
      have hRest := ih (fun other hMem => hNone other (List.mem_cons_of_mem _ hMem)) written.source
      simp [cutFrom, hNone written (List.mem_cons_self ..), hRest]

/-- A cut leaves what follows it alone or puts one blank before it. -/
theorem keptApart_eq (text : List Char) :
    keptApart text = text ∨ keptApart text = ' ' :: text := by
  unfold keptApart
  split
  · exact .inl rfl
  · split
    · exact .inl rfl
    · exact .inr rfl

@[simp] theorem keptApart_keptApart (text : List Char) :
    keptApart (keptApart text) = keptApart text := by
  rcases keptApart_eq text with hSame | hBlank
  · rw [hSame, hSame]
  · rw [hBlank]
    rfl

/-- Text is what is left without the white space at its end, and that white space. -/
theorem trimEnd_append_blank (text : List Char) :
    ∃ blank, text = trimEnd text ++ blank ∧ ∀ c ∈ blank, isBlank c = true := by
  refine ⟨(text.reverse.takeWhile isBlank).reverse, ?_, ?_⟩
  · rw [trimEnd, ← List.reverse_append, List.takeWhile_append_dropWhile, List.reverse_reverse]
  · intro c hMem
    exact List.mem_takeWhile_imp (List.mem_reverse.1 hMem)

theorem allBlank_of_trimEnd {text : List Char} (hNil : trimEnd text = []) :
    allBlank text = true := by
  obtain ⟨blank, hText, hBlank⟩ := trimEnd_append_blank text
  rw [hNil, List.nil_append] at hText
  rw [hText]
  simpa [allBlank] using hBlank

theorem not_isBlank_getLast?_trimEnd {text : List Char} {c : Char}
    (hLast : c ∈ (trimEnd text).getLast?) : isBlank c = false := by
  rw [trimEnd, List.getLast?_reverse] at hLast
  have hHead := List.head?_dropWhile_not isBlank text.reverse
  rw [hLast] at hHead
  simpa using hHead

/-- White space at the end of a text is white space at the end of what does not end with it. -/
theorem trimEnd_append {front rest : List Char} (hKept : trimEnd front = front ∨ ¬ allBlank rest) :
    trimEnd (front ++ rest) = front ++ trimEnd rest := by
  unfold trimEnd
  rw [List.reverse_append, List.dropWhile_append]
  rcases hKept with hFront | hRest
  · have hReverse : front.reverse.dropWhile isBlank = front.reverse := by
      rw [← List.reverse_inj, List.reverse_reverse]
      exact hFront
    split
    · rename_i hEmpty
      rw [hReverse, List.isEmpty_iff.1 hEmpty]
      simp
    · simp
  · have hNonempty : (rest.reverse.dropWhile isBlank).isEmpty = false := by
      rw [List.isEmpty_eq_false_iff]
      intro hNil
      apply hRest
      rw [List.dropWhile_eq_nil_iff] at hNil
      simpa [allBlank] using hNil
    rw [if_neg (by simp [hNonempty])]
    simp

theorem trimEnd_eq_self {text : List Char} (hLast : ∀ c ∈ text.getLast?, isBlank c = false) :
    trimEnd text = text := by
  unfold trimEnd
  cases hReverse : text.reverse with
  | nil => simpa using hReverse
  | cons c rest =>
      have hC := hLast c (by rw [← List.head?_reverse, hReverse]; rfl)
      rw [List.dropWhile_cons_of_neg (by simp [hC]), ← hReverse, List.reverse_reverse]

/-- No attribute that is cut follows one whose name and value end with white space. -/
def CutsStandClear (cut : WrittenAttribute → Bool) : List WrittenAttribute → Prop
  | written :: next :: rest =>
    (cut next = true → trimEnd written.body = written.body) ∧ CutsStandClear cut (next :: rest)
  | _ => True

/-- Spans are cut one after the other, each out of what the ones before left. -/
theorem cutInOrder?_append (openTag : List Char) (first second : List (Nat × Nat)) :
    cutInOrder? openTag (first ++ second) =
      (cutInOrder? openTag first).bind fun cut => cutInOrder? cut second := by
  induction first generalizing openTag with
  | nil => rfl
  | cons span rest ih =>
      obtain ⟨start, stop⟩ := span
      simp only [List.cons_append, cutInOrder?]
      cases cut? openTag start stop with
      | none => rfl
      | some next => exact ih next

/-- A cut closes the gap between what stands on both sides. -/
theorem cut?_append (front middle rest : List Char) :
    cut? (front ++ middle ++ rest) front.length (front.length + middle.length) =
      some (trimEnd front ++ keptApart rest) := by
  have hLength : ¬ (front ++ middle ++ rest).length < front.length := by
    simp only [List.length_append]
    omega
  rw [cut?, if_neg hLength, List.append_assoc, List.take_left, ← List.append_assoc,
    ← List.length_append, List.drop_left]

theorem not_allBlank_append {name : List Char} (hName : IsAttributeName name)
    (rest : List Char) : ¬ allBlank (name ++ rest) = true := by
  cases name with
  | nil => exact hName.elim
  | cons c name =>
      have hBegins := hName.1
      simp only [beginsName, Bool.not_eq_true', Bool.or_eq_false_iff] at hBegins
      simp [allBlank, hBegins.1.1]

def spans (placed : List PlacedAttribute) : List (Nat × Nat) :=
  placed.map fun placed => (placed.start, placed.stop)

/-- The cuts from the end to the front leave what one pass leaves. -/
theorem cutInOrder?_placedFrom {cut : List Char → Bool} {attributes : List WrittenAttribute}
    (hNames : ∀ written ∈ attributes, IsAttributeName written.name)
    (hClear : CutsStandClear (fun written => cut written.name) attributes)
    (front before ending : List Char)
    (hTrim : ∀ written ∈ attributes.head?, cut written.name = true →
      trimEnd (front ++ before) = front ++ trimEnd before) :
    cutInOrder? (front ++ before ++ attributes.flatMap WrittenAttribute.source ++ ending)
        (spans ((placedFrom (front ++ before).length attributes).filter
          fun placed => cut placed.name)).reverse =
      some (front ++ cutFrom (fun written => cut written.name) ending before attributes) := by
  induction attributes generalizing front before with
  | nil => simp [placedFrom, spans, cutInOrder?, cutFrom]
  | cons written rest ih =>
      have hTail := ih (fun other hMem => hNames other (List.mem_cons_of_mem _ hMem))
        (by cases rest with
          | nil => trivial
          | cons other rest => exact hClear.2)
      have hName := hNames written (List.mem_cons_self ..)
      by_cases hCut : cut written.name = true
      · have hBody := hTail (front ++ before ++ written.body) written.gap (by
          intro other hOther hOtherCut
          cases rest with
          | nil => simp at hOther
          | cons next rest =>
              cases hOther
              have hBody : ¬ allBlank written.body = true := not_allBlank_append hName _
              have hKept : trimEnd (front ++ before ++ written.body) =
                  front ++ before ++ written.body := by
                rw [trimEnd_append (.inr hBody), hClear.1 hOtherCut]
              exact trimEnd_append (.inl hKept))
        have hPlaced : (placedFrom (front ++ before).length (written :: rest)).filter
            (fun placed => cut placed.name) =
            ⟨written.name, written.value?, (front ++ before).length,
                (front ++ before).length + written.body.length⟩ ::
              (placedFrom (front ++ before ++ written.body ++ written.gap).length rest).filter
                (fun placed => cut placed.name) := by
          simp [placedFrom, hCut, WrittenAttribute.source, Nat.add_assoc]
        have hText : front ++ before ++ (written :: rest).flatMap WrittenAttribute.source ++ ending =
            front ++ before ++ written.body ++ written.gap ++
              rest.flatMap WrittenAttribute.source ++ ending := by
          simp [WrittenAttribute.source]
        rw [hText, hPlaced, spans, List.map_cons, List.reverse_cons, cutInOrder?_append,
          ← spans, hBody]
        have hLast := cut?_append (front ++ before) written.body
          (cutFrom (fun written => cut written.name) ending written.gap rest)
        rw [hTrim written rfl hCut] at hLast
        simp only [Option.bind_some, cutInOrder?, hLast, cutFrom, hCut, if_true]
        rw [← List.append_assoc]
        rfl
      · have hSource := hTail (front ++ before) written.source fun _ _ _ =>
          trimEnd_append (.inr (by
            rw [WrittenAttribute.source, WrittenAttribute.body, List.append_assoc]
            exact not_allBlank_append hName _))
        have hPlaced : (placedFrom (front ++ before).length (written :: rest)).filter
            (fun placed => cut placed.name) =
            (placedFrom (front ++ before ++ written.source).length rest).filter
              (fun placed => cut placed.name) := by
          simp [placedFrom, hCut, Nat.add_assoc]
        rw [hPlaced, List.flatMap_cons, ← List.append_assoc (front ++ before), hSource]
        simp [cutFrom, hCut]

/-- White space is cut off at the end of a text only if nothing solid stands there. -/
theorem trimEnd_append_solid {solid : List Char} (hNonempty : solid ≠ [])
    (hSolid : ∀ c ∈ solid, isBlank c = false) (front : List Char) :
    trimEnd (front ++ solid) = front ++ solid := by
  refine trimEnd_eq_self fun c hMem => hSolid c ?_
  rw [List.getLast?_append_of_ne_nil _ hNonempty] at hMem
  exact List.mem_of_getLast? hMem

/-- The name of an attribute holds no white space. -/
theorem not_isBlank_of_mem_name {name : List Char} (hName : IsAttributeName name) {c : Char}
    (hMem : c ∈ name) : isBlank c = false := by
  cases name with
  | nil => exact hName.elim
  | cons d name =>
      obtain ⟨hBegins, hContinues⟩ := hName
      rcases List.mem_cons.1 hMem with rfl | hMem
      · simp only [beginsName, Bool.not_eq_true', Bool.or_eq_false_iff] at hBegins
        exact hBegins.1.1
      · have hC := hContinues c hMem
        simp only [continuesName, Bool.not_eq_true', Bool.or_eq_false_iff] at hC
        exact hC.1.1.1

theorem not_isBlank_of_continuesBareValue {c : Char} (hContinues : continuesBareValue c = true) :
    isBlank c = false := by
  simp only [continuesBareValue, Bool.not_eq_true', Bool.or_eq_false_iff] at hContinues
  exact hContinues.1

/-- What separates an attribute from the next one is white space, or it goes on with a value
without quotes. -/
theorem continuesBareValue_before_attribute {gap name rest : List Char} {c : Char}
    {behind : List Char} (hGap : ∀ d ∈ gap, isBlank d = true ∨ d = '/')
    (hName : IsAttributeName name) (hText : gap ++ (name ++ rest) = c :: behind)
    (hBlank : isBlank c = false) : continuesBareValue c = true := by
  cases gap with
  | nil =>
      cases name with
      | nil => exact hName.elim
      | cons d name =>
          cases hText
          have hBegins := hName.1
          simp only [beginsName, Bool.not_eq_true', Bool.or_eq_false_iff,
            decide_eq_false_iff_not] at hBegins
          simp [continuesBareValue, hBlank, hBegins.2]
  | cons d gap =>
      cases hText
      rcases hGap c (List.mem_cons_self ..) with hC | rfl
      · simp [hC] at hBlank
      · decide

/-- What separates an attribute from the next one, and the name of that, do not begin with white
space and a quote, unless the name itself begins with the quote. -/
theorem blank_quote_ne_before_attribute {gap name rest behind : List Char} {blank mark : Char}
    (hGap : ∀ d ∈ gap, isBlank d = true ∨ d = '/') (hName : IsAttributeName name)
    (hQuote : ∀ c ∈ name.head?, isQuote c = false) (hBlank : isBlank blank = true)
    (hMark : isQuote mark = true) : gap ++ (name ++ rest) ≠ blank :: mark :: behind := by
  intro hText
  obtain ⟨c, more, rfl⟩ := List.exists_cons_of_ne_nil hName.ne_nil
  rcases gap with - | ⟨d, - | ⟨e, gap⟩⟩
  · have hC : c = blank := (List.cons.inj hText).1
    have hNotBlank := not_isBlank_of_mem_name hName (List.mem_cons_self ..)
    simp [hC, hBlank] at hNotBlank
  · have hC : c = mark := (List.cons.inj (List.cons.inj hText).2).1
    simp [hC, hMark] at hQuote
  · have hE : e = mark := (List.cons.inj (List.cons.inj hText).2).1
    rcases hGap e (by simp) with hSpace | hSlash
    · rw [hE, not_isBlank_of_isQuote hMark] at hSpace
      simp at hSpace
    · rw [← hE, hSlash] at hMark
      revert hMark
      decide

/-- The name and value of an attribute that another one follows end with white space only before a
quote that is never closed. -/
theorem trimEnd_body {written next : WrittenAttribute} {following : List Char}
    (hName : IsAttributeName written.name) (hNext : IsAttributeName next.name)
    (hQuote : ∀ c ∈ next.name.head?, isQuote c = false)
    (hEnds : written.Ends (written.gap ++ (next.source ++ following)))
    (hGap : GapStops written.gap (next.source ++ following)) :
    trimEnd written.body = written.body := by
  have hSeparators := (gapStops_iff.1 hGap).1
  obtain ⟨name, assignment, gap⟩ := written
  cases assignment with
  | none =>
      have hBody : WrittenAttribute.body ⟨name, none, gap⟩ = [] ++ name := by
        simp [WrittenAttribute.body]
      rw [hBody]
      exact trimEnd_append_solid hName.ne_nil (fun c => not_isBlank_of_mem_name hName) []
  | some assignment =>
      have hText : gap ++ (next.source ++ following) = gap ++ (next.name ++
          ((next.assignment.map Assignment.source).getD [] ++ (next.gap ++ following))) := by
        simp [WrittenAttribute.source, WrittenAttribute.body]
      simp only [WrittenAttribute.Ends] at hEnds
      generalize hBehind : gap ++ (next.source ++ following) = behind at hEnds
      rw [hText] at hBehind
      cases hEnds with
      | @quoted before signs space text behind mark lead isMark closed =>
          have hBody : WrittenAttribute.body ⟨name,
              some ⟨before ++ signs ++ space, .quoted mark text⟩, gap⟩ =
              (name ++ (before ++ signs ++ space ++ mark :: text)) ++ [mark] := by
            simp [WrittenAttribute.body, Assignment.source, WrittenValue.source]
          rw [hBody]
          exact trimEnd_append_solid (List.cons_ne_nil mark [])
            (by simpa using not_isBlank_of_isQuote isMark) _
      | @bare before signs space value behind lead leadStops opens goesOn stops =>
          have hNonempty : value ≠ [] := by
            rintro rfl
            cases behind with
            | nil => simp [hNext.ne_nil] at hBehind
            | cons c tail =>
                have hContinues :=
                  continuesBareValue_before_attribute hSeparators hNext hBehind leadStops.1
                simp [hContinues] at stops
          have hBody : WrittenAttribute.body ⟨name,
              some ⟨before ++ signs ++ space, .bare value⟩, gap⟩ =
              (name ++ (before ++ signs ++ space)) ++ value := by
            simp [WrittenAttribute.body, Assignment.source, WrittenValue.source]
          rw [hBody]
          exact trimEnd_append_solid hNonempty
            (fun c hMem => not_isBlank_of_continuesBareValue (goesOn c hMem)) _
      | @beforeBlank before signs space rest blank mark lead isMark unclosed =>
          have hBlank := lead.behind_blank blank (by simp)
          exact absurd hBehind
            (blank_quote_ne_before_attribute hSeparators hNext hQuote hBlank isMark)
      | @beforeSign before signs value behind mark lead isMark goesOn stops unclosed =>
          have hBody : WrittenAttribute.body ⟨name,
              some ⟨before ++ signs, .bare ('=' :: mark :: value)⟩, gap⟩ =
              (name ++ (before ++ signs ++ ['='])) ++ mark :: value := by
            simp [WrittenAttribute.body, Assignment.source, WrittenValue.source]
          rw [hBody]
          refine trimEnd_append_solid (List.cons_ne_nil mark value) ?_ _
          exact List.forall_mem_cons.2 ⟨not_isBlank_of_isQuote isMark,
            fun c hMem => not_isBlank_of_continuesBareValue (goesOn c hMem)⟩

/-- Where no name that is cut begins with a quote, white space before a cut is white space of a gap.
-/
theorem AttributesEnd.cutsStandClear {before : Char} {attributes : List WrittenAttribute}
    {rest : List Char} (hEnd : AttributesEnd before attributes rest)
    (cut : WrittenAttribute → Bool)
    (hCut : ∀ written ∈ attributes, cut written = true →
      ∀ c ∈ written.name.head?, isQuote c = false) :
    CutsStandClear cut attributes := by
  induction attributes generalizing before with
  | nil => trivial
  | cons written more ih =>
      obtain ⟨-, hName, hEnds, hGap, hMore⟩ := hEnd
      cases more with
      | nil => trivial
      | cons next more =>
          refine ⟨fun hNextCut => ?_,
            ih hMore fun other hMem => hCut other (List.mem_cons_of_mem _ hMem)⟩
          rw [List.flatMap_cons, List.append_assoc] at hEnds hGap
          exact trimEnd_body hName hMore.2.1 (hCut next (by simp) hNextCut) hEnds hGap

/-- Attributes that were read have names. -/
theorem AttributesEnd.names {before : Char} {attributes : List WrittenAttribute}
    {rest : List Char} (hEnd : AttributesEnd before attributes rest) :
    ∀ written ∈ attributes, IsAttributeName written.name := by
  induction attributes generalizing before with
  | nil => simp
  | cons written more ih =>
      obtain ⟨-, hName, -, -, hMore⟩ := hEnd
      intro other hMem
      rcases List.mem_cons.1 hMem with rfl | hMem
      · exact hName
      · exact ih hMore other hMem

/-- Attributes stand in the order in which they are written, each at its own place. -/
theorem pairwise_placedFrom {attributes : List WrittenAttribute}
    (hNames : ∀ written ∈ attributes, IsAttributeName written.name) (offset : Nat) :
    (∀ placed ∈ placedFrom offset attributes, offset ≤ placed.start) ∧
      (placedFrom offset attributes).Pairwise fun one other => one.start < other.start := by
  induction attributes generalizing offset with
  | nil => simp [placedFrom]
  | cons written rest ih =>
      obtain ⟨hBehind, hPairwise⟩ :=
        ih (fun other hMem => hNames other (List.mem_cons_of_mem _ hMem))
        (offset + written.source.length)
      have hLength : 0 < written.source.length := by
        have hName := hNames written (List.mem_cons_self ..)
        cases hWritten : written.name with
        | nil => exact (hWritten ▸ hName).elim
        | cons c name => simp [WrittenAttribute.source, WrittenAttribute.body, hWritten]
      refine ⟨?_, List.pairwise_cons.2 ⟨?_, hPairwise⟩⟩
      · intro placed hMem
        rcases List.mem_cons.1 hMem with rfl | hMem
        · exact Nat.le_refl _
        · have := hBehind placed hMem
          omega
      · intro placed hMem
        have := hBehind placed hMem
        simp only
        omega

/-- Cutting attributes out of a tag leaves what one pass over the tag leaves, as long as no name
among them begins with a quote. -/
theorem removeAttributes?_source {tag : OpenTag} {behind : List Char} (hEnds : tag.Ends behind)
    (cut : List Char → Bool) (hCut : ∀ name, cut name = true → ∀ c ∈ name.head?, isQuote c = false) :
    removeAttributes? tag.source ((attributesOf tag.source).filter fun placed => cut placed.name) =
      some (tag.cutText cut) := by
  have hNames := hEnds.attributes.names
  have hClear := hEnds.attributes.cutsStandClear (fun written => cut written.name)
    fun written _ => hCut written.name
  have hCuts := cutInOrder?_placedFrom hNames hClear [] ('<' :: tag.name ++ tag.gap) tag.ending
    fun _ _ _ => rfl
  have hOrdered : (spans ((placedFrom ('<' :: tag.name ++ tag.gap).length tag.attributes).filter
      fun placed => cut placed.name)).Pairwise fun one other => one.1 < other.1 := by
    rw [spans, List.pairwise_map]
    exact (pairwise_placedFrom hNames _).2.filter _
  have hSort := mergeSort_eq_reverse Prod.fst (List.Perm.refl _) hOrdered
  have hSource : tag.source =
      [] ++ ('<' :: tag.name ++ tag.gap) ++ tag.attributes.flatMap WrittenAttribute.source ++
        tag.ending := by
    simp [OpenTag.source, OpenTag.sourceTail]
  rw [removeAttributes?, removeSpans?_eq, attributesOf_source hEnds, lastSpanFirst, ← spans, hSort]
  rw [← hSource] at hCuts
  exact hCuts

end AccessibleMarkup.Markup
