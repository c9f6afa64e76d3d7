import AccessibleMarkup.Proofs.Passes
import Mathlib.Data.List.Pairwise

/-! Cutting attributes out of any text, told character by character. Each cut changes the text that
the cuts before it are made in, and looks for white space to its left without a bound. All of them
come to one pass over the text as it was, which leaves out the attributes and the white space before
them and puts a blank where two characters would come to touch. -/
namespace AccessibleMarkup.Markup

open AccessibleMarkup.Text

/-- The index lies in a span that is cut, or in the white space directly before one. -/
def isCut (text : List Char) (spans : List (Nat × Nat)) (index : Nat) : Bool :=
  spans.any fun span => index < span.2 && allBlank (slice text index span.1)

/-- One pass over a text from an index on, that leaves out what is cut. A blank takes the place of
the characters cut one behind the other, unless white space or the end of a tag follows them, or
nothing. `gone` tells whether the character before was cut. -/
def closeUp (cut : Nat → Bool) (gone : Bool) (index : Nat) : List Char → List Char
  | [] => []
  | c :: rest =>
    if cut index then closeUp cut true (index + 1) rest
    else if gone && !(isBlank c || c = '>' || c = '/') then
      ' ' :: c :: closeUp cut false (index + 1) rest
    else c :: closeUp cut false (index + 1) rest

/-- Where the white space directly before an index begins. -/
def clearStart (text : List Char) (index : Nat) : Nat :=
  (trimEnd (text.take index)).length

theorem clearStart_le (text : List Char) (index : Nat) : clearStart text index ≤ index := by
  obtain ⟨blank, hText, -⟩ := trimEnd_append_blank (text.take index)
  have hLength := congrArg List.length hText
  simp only [List.length_append, List.length_take] at hLength
  unfold clearStart
  omega

/-- White space is cut off in front of an index up to where it begins. -/
theorem trimEnd_take (text : List Char) (index : Nat) :
    trimEnd (text.take index) = text.take (clearStart text index) := by
  obtain ⟨blank, hText, -⟩ := trimEnd_append_blank (text.take index)
  have hPrefix : trimEnd (text.take index) <+: text :=
    (List.prefix_append _ blank).trans (hText ▸ List.take_prefix index text)
  exact List.prefix_iff_eq_take.1 hPrefix

/-- White space reaches up to an index from where it begins on, and from nowhere before. -/
theorem allBlank_slice_iff {text : List Char} {index stop : Nat} :
    allBlank (slice text index stop) = true ↔ clearStart text stop ≤ index := by
  have hSlice : slice text index stop = (text.take stop).drop index := by
    rw [slice, List.drop_take]
  rw [hSlice]
  obtain ⟨blank, hText, hBlank⟩ := trimEnd_append_blank (text.take stop)
  constructor
  · intro hAll
    by_contra hBefore
    have hInner : index < (trimEnd (text.take stop)).length := Nat.lt_of_not_le hBefore
    obtain ⟨init, last, hTrim⟩ := List.eq_nil_or_concat' (trimEnd (text.take stop)) |>.resolve_left
      (List.ne_nil_of_length_pos (by omega))
    have hSolid : isBlank last = false :=
      not_isBlank_getLast?_trimEnd (by rw [hTrim, List.getLast?_concat]; rfl)
    rw [hTrim, List.length_append, List.length_singleton] at hInner
    rw [hText, hTrim, List.append_assoc, List.drop_append_of_le_length (by omega)] at hAll
    simp [allBlank, hSolid] at hAll
  · intro hBehind
    rw [hText, List.drop_append, List.drop_eq_nil_of_le hBehind, List.nil_append]
    simpa [allBlank] using fun c hMem => hBlank c (List.mem_of_mem_drop hMem)

theorem isCut_iff {text : List Char} {spans : List (Nat × Nat)} {index : Nat} :
    isCut text spans index = true ↔
      ∃ span ∈ spans, clearStart text span.1 ≤ index ∧ index < span.2 := by
  simp only [isCut, List.any_eq_true, Bool.and_eq_true, decide_eq_true_eq, allBlank_slice_iff,
    and_comm]

theorem isCut_cons_iff {text : List Char} {span : Nat × Nat} {rest : List (Nat × Nat)}
    {index : Nat} :
    isCut text (span :: rest) index = true ↔
      (clearStart text span.1 ≤ index ∧ index < span.2) ∨ isCut text rest index = true := by
  simp only [isCut_iff, List.mem_cons, exists_eq_or_imp]

/-- The order in which spans are listed does not matter to what is cut. -/
theorem isCut_perm {spans others : List (Nat × Nat)} (hPerm : spans.Perm others)
    (text : List Char) : isCut text spans = isCut text others := by
  funext index
  rw [Bool.eq_iff_iff, isCut_iff, isCut_iff]
  simp only [hPerm.mem_iff]

section
variable {cut : Nat → Bool}

/-- Behind something cut, the pass keeps what follows apart as a single cut does. -/
theorem closeUp_true (index : Nat) (text : List Char) :
    closeUp cut true index text = keptApart (closeUp cut false index text) := by
  induction text generalizing index with
  | nil => rfl
  | cons c rest ih =>
      simp only [closeUp]
      split
      · rw [ih, keptApart_keptApart]
      · cases hStays : (isBlank c || decide (c = '>') || decide (c = '/')) <;>
          simp [keptApart, hStays]

/-- A front in which nothing is cut is copied. -/
theorem closeUp_kept {index : Nat} {front : List Char}
    (hKept : ∀ place, index ≤ place → place < index + front.length → cut place = false)
    (rest : List Char) :
    closeUp cut false index (front ++ rest) =
      front ++ closeUp cut false (index + front.length) rest := by
  induction front generalizing index with
  | nil => rfl
  | cons c front ih =>
      simp only [List.length_cons] at hKept
      have hTail := @ih (index + 1) fun place hBehind hBefore => hKept place (by omega) (by omega)
      have hLength : index + (c :: front).length = index + 1 + front.length := by
        rw [List.length_cons]
        omega
      rw [List.cons_append, closeUp, hKept index (by omega) (by omega), hTail, hLength]
      rfl

/-- A piece that is cut as a whole is left out, and what follows it is kept apart. -/
theorem closeUp_gone {gone : Bool} {index : Nat} {middle : List Char}
    (hSome : gone = true ∨ middle ≠ [])
    (hCut : ∀ place, index ≤ place → place < index + middle.length → cut place = true)
    (rest : List Char) :
    closeUp cut gone index (middle ++ rest) =
      keptApart (closeUp cut false (index + middle.length) rest) := by
  induction middle generalizing gone index with
  | nil =>
      have hGone : gone = true := hSome.resolve_right (by simp)
      rw [hGone]
      exact closeUp_true index rest
  | cons c middle ih =>
      simp only [List.length_cons] at hCut
      have hTail := @ih true (index + 1) (.inl rfl) fun place hBehind hBefore =>
        hCut place (by omega) (by omega)
      have hLength : index + (c :: middle).length = index + 1 + middle.length := by
        rw [List.length_cons]
        omega
      rw [List.cons_append, closeUp, if_pos (hCut index (by omega) (by omega)), hTail, hLength]

/-- What is left hangs on what is cut from the index on. -/
theorem closeUp_congr {other : Nat → Bool} {gone : Bool} {index : Nat} {text : List Char}
    (hSame : ∀ place, index ≤ place → cut place = other place) :
    closeUp cut gone index text = closeUp other gone index text := by
  induction text generalizing gone index with
  | nil => rfl
  | cons c rest ih =>
      have hTail (gone : Bool) := @ih gone (index + 1) fun place hBehind => hSame place (by omega)
      simp only [closeUp, hSame index (Nat.le_refl _), hTail]

end

/-- Spans of a text that stand one behind the other. White space directly before one of them does
not reach into the one before. -/
structure SpansClear (text : List Char) (spans : List (Nat × Nat)) : Prop where
  within : ∀ span ∈ spans, span.1 < span.2 ∧ span.2 ≤ text.length
  clear : spans.Pairwise fun one other => one.2 ≤ clearStart text other.1

/-- A cut into a text that is changed behind the cut only. -/
theorem cut?_take {text : List Char} {start stop : Nat} (hOrder : start ≤ stop)
    (hStop : stop ≤ text.length) (rest : List Char) :
    cut? (text.take stop ++ rest) start stop =
      some (text.take (clearStart text start) ++ keptApart rest) := by
  have hLength : (text.take start).length = start := by
    rw [List.length_take]
    omega
  have hJoin := cut?_append (text.take start) (slice text start stop) rest
  rwa [hLength, length_slice hStop, Nat.add_sub_cancel' hOrder, take_append_slice hOrder,
    trimEnd_take] at hJoin

/-- The pass copies the text up to the white space before the first span, and goes on behind the
span with what the spans behind it leave. -/
theorem SpansClear.closeUp_cons {text : List Char} {start stop : Nat} {rest : List (Nat × Nat)}
    (hClear : SpansClear text ((start, stop) :: rest)) {offset : Nat}
    (hOffset : offset ≤ clearStart text start) :
    closeUp (isCut text ((start, stop) :: rest)) false offset (text.drop offset) =
      slice text offset (clearStart text start) ++
        keptApart (closeUp (isCut text rest) false stop (text.drop stop)) := by
  obtain ⟨hOrder, hStop⟩ : start < stop ∧ stop ≤ text.length :=
    hClear.within _ (List.mem_cons_self ..)
  have hBlank := clearStart_le text start
  have hFrontLength : (slice text offset (clearStart text start)).length =
      clearStart text start - offset := length_slice (by omega)
  have hMiddleLength : (slice text (clearStart text start) stop).length =
      stop - clearStart text start := length_slice hStop
  have hKept (place : Nat) (hTo : place < clearStart text start) :
      isCut text ((start, stop) :: rest) place = false := by
    rw [Bool.eq_false_iff, Ne, isCut_cons_iff, isCut_iff]
    rintro (⟨hFrom, -⟩ | ⟨other, hMem, hFrom, -⟩)
    · exact absurd hFrom (Nat.not_le.2 hTo)
    · have hBehind : stop ≤ clearStart text other.1 :=
        (List.pairwise_cons.1 hClear.clear).1 other hMem
      omega
  have hGone (place : Nat) (hFrom : clearStart text start ≤ place) (hTo : place < stop) :
      isCut text ((start, stop) :: rest) place = true :=
    isCut_cons_iff.2 (.inl ⟨hFrom, hTo⟩)
  have hBehind (place : Nat) (hFrom : stop ≤ place) :
      isCut text ((start, stop) :: rest) place = isCut text rest place := by
    rw [Bool.eq_iff_iff, isCut_cons_iff, or_iff_right]
    exact fun hSpan => absurd hSpan.2 (Nat.not_lt.2 hFrom)
  have hDrop : text.drop offset = slice text offset (clearStart text start) ++
      (slice text (clearStart text start) stop ++ text.drop stop) := by
    rw [slice_append_drop (by omega), slice_append_drop hOffset]
  rw [hDrop, closeUp_kept fun place _ hTo => hKept place (by omega), hFrontLength,
    Nat.add_sub_cancel' hOffset, closeUp_gone (.inr (List.ne_nil_of_length_pos (by omega)))
      fun place hFrom hTo => hGone place hFrom (by omega),
    hMiddleLength, Nat.add_sub_cancel' (by omega), closeUp_congr hBehind]

/-- Spans that are cut from the last to the first leave what one pass leaves. -/
theorem cutInOrder?_reverse {text : List Char} {spans : List (Nat × Nat)}
    (hClear : SpansClear text spans) {offset : Nat} (hLength : offset ≤ text.length)
    (hOffset : ∀ span ∈ spans, offset ≤ clearStart text span.1) :
    cutInOrder? text spans.reverse =
      some (text.take offset ++ closeUp (isCut text spans) false offset (text.drop offset)) := by
  induction spans generalizing offset with
  | nil =>
      have hKept := @closeUp_kept (isCut text []) offset (text.drop offset) (fun _ _ _ => rfl) []
      rw [List.append_nil, closeUp, List.append_nil] at hKept
      rw [hKept, List.take_append_drop]
      rfl
  | cons span rest ih =>
      obtain ⟨hSpan, hWithin⟩ := List.forall_mem_cons.1 hClear.within
      obtain ⟨hBehind, hPairwise⟩ := List.pairwise_cons.1 hClear.clear
      obtain ⟨start, stop⟩ := span
      obtain ⟨hOrder, hStop⟩ : start < stop ∧ stop ≤ text.length := hSpan
      have hBefore : offset ≤ clearStart text start := hOffset _ (List.mem_cons_self ..)
      have hCuts := ih ⟨hWithin, hPairwise⟩ hStop hBehind
      rw [List.reverse_cons, cutInOrder?_append, hCuts, Option.bind_some, hClear.closeUp_cons hBefore,
        ← List.append_assoc, take_append_slice hBefore]
      simp only [cutInOrder?, cut?_take (Nat.le_of_lt hOrder) hStop]
      rfl

/-- Where attributes stand that follow one another from an offset on. -/
theorem placedFrom_within {attributes : List WrittenAttribute}
    (hNames : ∀ written ∈ attributes, IsAttributeName written.name) (offset : Nat) :
    ∀ placed ∈ placedFrom offset attributes, placed.start < placed.stop ∧
      placed.stop ≤ offset + (attributes.flatMap WrittenAttribute.source).length := by
  induction attributes generalizing offset with
  | nil => simp [placedFrom]
  | cons written rest ih =>
      obtain ⟨hName, hRest⟩ := List.forall_mem_cons.1 hNames
      have hBody : 0 < written.body.length := by
        have hLength := List.length_pos_of_ne_nil hName.ne_nil
        rw [WrittenAttribute.body, List.length_append]
        omega
      have hSource : (List.flatMap WrittenAttribute.source (written :: rest)).length =
          written.body.length + written.gap.length +
            (rest.flatMap WrittenAttribute.source).length := by
        rw [List.flatMap_cons, List.length_append, WrittenAttribute.source, List.length_append]
      intro placed hMem
      rcases List.mem_cons.1 hMem with rfl | hMem
      · simp only [hSource]
        omega
      · have hLater := ih hRest _ placed hMem
        simp only [WrittenAttribute.source, List.length_append] at hLater
        omega

/-- An attribute of a text ends before another one, and before the white space in front of that one
too. A name that begins with a quote is left out: the value before it may be empty behind white
space, where the quote is never closed. -/
def PlacedAttribute.Precedes (text : List Char) (one other : PlacedAttribute) : Prop :=
  one.stop ≤ other.start ∧
    ((∀ c ∈ other.name.head?, isQuote c = false) → one.stop ≤ clearStart text other.start)

/-- The attributes of a tag stand apart: of what comes before an attribute, only the gap may end
with white space. -/
theorem AttributesEnd.pairwise_placedFrom {before : Char} {attributes : List WrittenAttribute}
    {rest : List Char} (hEnd : AttributesEnd before attributes rest) {text front : List Char}
    (hText : front ++ (attributes.flatMap WrittenAttribute.source ++ rest) <+: text) :
    (placedFrom front.length attributes).Pairwise (PlacedAttribute.Precedes text) := by
  induction attributes generalizing before front with
  | nil => exact .nil
  | cons written more ih =>
      obtain ⟨-, hName, hEnds, hGap, hMore⟩ := hEnd
      rw [List.flatMap_cons, List.append_assoc, ← List.append_assoc front] at hText
      have hTail := ih hMore hText
      have hBehind := (Markup.pairwise_placedFrom hMore.names (front ++ written.source).length).1
      have hLength : (front ++ written.source).length =
          front.length + written.body.length + written.gap.length := by
        simp [WrittenAttribute.source, Nat.add_assoc]
      rw [List.length_append] at hTail hBehind hLength
      refine List.pairwise_cons.2 ⟨fun other hOther => ⟨?_, fun hQuote => ?_⟩, hTail⟩
      · have hStart := hBehind other hOther
        simp only
        omega
      · cases more with
        | nil => simp [placedFrom] at hOther
        | cons next more =>
            rcases List.mem_cons.1 hOther with rfl | hLater
            · rw [List.flatMap_cons, List.append_assoc] at hEnds hGap
              have hBody := trimEnd_body hName hMore.2.1 hQuote hEnds hGap
              have hSolid : ¬ allBlank written.body = true := not_allBlank_append hName _
              have hTake : text.take (front.length + written.source.length) =
                  front ++ written.body ++ written.gap := by
                obtain ⟨behind, rfl⟩ := hText
                rw [← List.length_append, List.append_assoc, List.take_left]
                simp [WrittenAttribute.source]
              have hTrim : trimEnd (front ++ written.body) = front ++ written.body := by
                rw [trimEnd_append (.inr hSolid), hBody]
              simp only [clearStart, hTake, trimEnd_append (.inl hTrim), List.length_append]
              omega
            · have hNext := ((List.pairwise_cons.1 hTail).1 other hLater).2 hQuote
              have hStart : front.length + written.body.length ≤
                  front.length + written.source.length + next.body.length := by
                omega
              exact Nat.le_trans hStart hNext

/-- Where the attributes of any text stand. -/
theorem attributesOf_clear (text : List Char) :
    (∀ placed ∈ attributesOf text, placed.start < placed.stop ∧ placed.stop ≤ text.length) ∧
      (attributesOf text).Pairwise (PlacedAttribute.Precedes text) := by
  obtain ⟨front, attributes, rest, hJoin, hEnd, hPlaced⟩ := exists_attributesOf text
  have hText := withoutEnd_prefix text
  rw [hJoin] at hText
  rw [hPlaced]
  refine ⟨fun placed hMem => ?_, hEnd.pairwise_placedFrom hText⟩
  have hWithin := placedFrom_within hEnd.names front.length placed hMem
  have hLength := hText.length_le
  simp only [List.length_append] at hLength
  omega

section
variable {text : List Char} {removed : List PlacedAttribute}
  (hMem : ∀ placed ∈ removed, placed ∈ attributesOf text ∧
    Aria.isAriaName (String.ofList (lowercase placed.name)) = true)
include hMem

/-- Attributes of a text can be cut without one cut reaching into another. -/
theorem spansClear_filter_attributesOf :
    SpansClear text (spans ((attributesOf text).filter (· ∈ removed))) := by
  obtain ⟨hWithin, hPairwise⟩ := attributesOf_clear text
  constructor
  · intro span hSpan
    obtain ⟨placed, hPlaced, rfl⟩ := List.mem_map.1 hSpan
    exact hWithin placed (List.mem_filter.1 hPlaced).1
  · rw [spans, List.pairwise_map]
    refine (hPairwise.filter _).imp_of_mem fun {one other} _ hOther hApart => ?_
    have hRemoved : other ∈ removed := by simpa using (List.mem_filter.1 hOther).2
    exact hApart.2 (Aria.isQuote_of_isAriaName (hMem other hRemoved).2)

/-- An attribute that is kept stands clear of all that is cut. -/
theorem isCut_kept {kept : PlacedAttribute} (hKept : kept ∈ attributesOf text)
    (hStays : kept ∉ removed) {index : Nat} (hStart : kept.start ≤ index)
    (hStop : index < kept.stop) : isCut text (spans removed) index = false := by
  obtain ⟨hWithin, hPairwise⟩ := attributesOf_clear text
  rw [Bool.eq_false_iff, Ne, isCut_iff]
  rintro ⟨span, hSpan, hClear, hEnd⟩
  obtain ⟨placed, hPlaced, rfl⟩ := List.mem_map.1 hSpan
  obtain ⟨hThere, hAria⟩ := hMem placed hPlaced
  have hFrom : clearStart text placed.start ≤ index := hClear
  have hNe : kept ≠ placed := fun hSame => hStays (hSame ▸ hPlaced)
  have : Std.Symm fun one other : PlacedAttribute =>
      one.Precedes text other ∨ other.Precedes text one := ⟨fun _ _ => Or.symm⟩
  have hEither : (attributesOf text).Pairwise fun one other =>
      one.Precedes text other ∨ other.Precedes text one := hPairwise.imp .inl
  rcases hEither.forall hKept hThere hNe with hBefore | hBehind
  · have hNone := hBefore.2 (Aria.isQuote_of_isAriaName hAria)
    omega
  · have hNone := hBehind.1
    omega

/-- The attributes to cut, listed in any order, are some of the attributes of the text. -/
theorem perm_filter_attributesOf (hNodup : removed.Nodup) :
    removed.Perm ((attributesOf text).filter (· ∈ removed)) := by
  obtain ⟨hWithin, hPairwise⟩ := attributesOf_clear text
  have hStarts : (attributesOf text).Nodup := by
    refine hPairwise.imp_of_mem fun {one other} hOne _ hApart hSame => ?_
    have hOrder := (hWithin one hOne).1
    have hAfter := hApart.1
    rw [← hSame] at hAfter
    omega
  refine (List.perm_ext_iff_of_nodup hNodup (hStarts.filter _)).2 fun placed => ?_
  simp only [List.mem_filter, decide_eq_true_eq]
  exact ⟨fun hRemoved => ⟨(hMem placed hRemoved).1, hRemoved⟩, And.right⟩

/-- The order in which the attributes to cut are listed is lost when they are sorted. -/
theorem lastSpanFirst_spans (hNodup : removed.Nodup) :
    lastSpanFirst (spans removed) =
      (spans ((attributesOf text).filter (· ∈ removed))).reverse := by
  have hClear := spansClear_filter_attributesOf hMem
  refine mergeSort_eq_reverse Prod.fst ((perm_filter_attributesOf hMem hNodup).map _) ?_
  refine hClear.clear.imp_of_mem fun {one other} hOne _ hApart => ?_
  have hOrder := (hClear.within one hOne).1
  have hBlank := clearStart_le text other.1
  omega

/-- Cutting attributes out comes to one pass over the text, in whatever order they are given. -/
theorem removeAttributes?_eq_closeUp (hNodup : removed.Nodup) :
    removeAttributes? text removed =
      some (closeUp (isCut text (spans removed)) false 0 text) := by
  have hCut := isCut_perm ((perm_filter_attributesOf hMem hNodup).map
    fun placed => (placed.start, placed.stop)) text
  have hRun := cutInOrder?_reverse (spansClear_filter_attributesOf hMem) (Nat.zero_le _)
    fun _ _ => Nat.zero_le _
  rw [List.take_zero, List.nil_append, List.drop_zero] at hRun
  rw [spans, hCut, removeAttributes?, removeSpans?_eq, ← spans, ← spans,
    lastSpanFirst_spans hMem hNodup, hRun]

end

/-- Cutting some of the ARIA attributes of a text out of it, listed in any order, leaves what one
pass over the text leaves: each of them goes with the white space directly before it, and one blank
takes the place of those that adjoin, unless white space, `>` or `/` follows them, or nothing. All
else stays, the attributes that are kept among it, and the order in which the attributes are listed
does not matter. -/
theorem aria_attributes_cut_in_one_pass (text : List Char) {removed : List PlacedAttribute}
    (hNodup : removed.Nodup)
    (hMem : ∀ placed ∈ removed, placed ∈ attributesOf text ∧
      Aria.isAriaName (String.ofList (lowercase placed.name)) = true) :
    removeAttributes? text removed =
        some (closeUp (isCut text (spans removed)) false 0 text) ∧
      (∀ kept ∈ attributesOf text, kept ∉ removed →
        ∀ index, kept.start ≤ index → index < kept.stop →
          isCut text (spans removed) index = false) ∧
      ∀ listed, listed.Perm removed →
        removeAttributes? text listed = removeAttributes? text removed := by
  have hRemoved := removeAttributes?_eq_closeUp hMem hNodup
  refine ⟨hRemoved, fun kept hKept hStays index hStart hStop => ?_, fun listed hListed => ?_⟩
  · exact isCut_kept hMem hKept hStays hStart hStop
  · have hListedMem := fun placed hPlaced => hMem placed (hListed.mem_iff.1 hPlaced)
    have hSame := isCut_perm (hListed.map fun placed => (placed.start, placed.stop)) text
    rw [hRemoved, removeAttributes?_eq_closeUp hListedMem (hListed.nodup_iff.2 hNodup), spans,
      hSame, ← spans]

/-- Two attributes that adjoin are cut out between two others that are written flush against
them. -/
theorem aria_attributes_cut_between_flush_neighbours :
    removeAttributes? "<p a=\"1\"aria-x=2 aria-y=\"3\"b>".toList
        [⟨"aria-y".toList, some ['3'], 17, 27⟩, ⟨"aria-x".toList, some ['2'], 8, 16⟩] =
      some "<p a=\"1\" b>".toList := by
  obtain ⟨hRemoved, -, hAny⟩ :=
    @aria_attributes_cut_in_one_pass "<p a=\"1\"aria-x=2 aria-y=\"3\"b>".toList
      [⟨"aria-x".toList, some ['2'], 8, 16⟩, ⟨"aria-y".toList, some ['3'], 17, 27⟩]
      (by decide) (by decide +kernel)
  rw [hAny _ (List.Perm.swap ..), hRemoved]
  decide +kernel

end AccessibleMarkup.Markup
