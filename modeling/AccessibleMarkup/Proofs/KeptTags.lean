import AccessibleMarkup.Proofs.Cutting

/-! Tags without some of their attributes, as tags. The cuts leave the text of such a tag, as long
as the white space that they take away stands behind the name of the tag. -/
namespace AccessibleMarkup.Markup

open AccessibleMarkup.Text

/-- What separates what comes before from the attributes that are kept. Something always does. -/
def keptGap (gap : List Char) (kept : List WrittenAttribute) : List Char :=
  if gap.isEmpty && !kept.isEmpty then [' '] else gap

/-- The attributes that are kept, and the gap before the first of them. Where an attribute is cut
out, the gap before it loses the white space at its end and goes on with the gap behind it. -/
def keepFrom (cut : WrittenAttribute → Bool) (gap : List Char) :
    List WrittenAttribute → List Char × List WrittenAttribute
  | [] => (gap, [])
  | written :: rest =>
    let (later, kept) := keepFrom cut written.gap rest
    if cut written then (trimEnd gap ++ keptGap later kept, kept)
    else (gap, { written with gap := later } :: kept)

def OpenTag.without (tag : OpenTag) (cut : List Char → Bool) : OpenTag :=
  let (gap, kept) := keepFrom (fun written => cut written.name) tag.gap tag.attributes
  { tag with gap := gap, attributes := kept }

theorem mem_of_mem_trimEnd {text : List Char} {c : Char} (hMem : c ∈ trimEnd text) : c ∈ text := by
  have hSublist := List.dropWhile_sublist isBlank (l := text.reverse)
  simpa using hSublist.subset (by simpa [trimEnd] using hMem)

section
variable {cut : WrittenAttribute → Bool}

/-- Where an attribute is cut, the white space before it goes, and the gap behind it takes the place
of what is left. -/
theorem keepFrom_cut {written : WrittenAttribute} (hCut : cut written = true)
    (gap : List Char) (rest : List WrittenAttribute) :
    keepFrom cut gap (written :: rest) =
      (trimEnd gap ++ keptGap (keepFrom cut written.gap rest).1 (keepFrom cut written.gap rest).2,
        (keepFrom cut written.gap rest).2) := by
  simp [keepFrom, hCut]

/-- An attribute that is kept keeps its name and value, and gets the gap that the cuts behind it
leave. -/
theorem keepFrom_kept {written : WrittenAttribute} (hCut : cut written = false)
    (gap : List Char) (rest : List WrittenAttribute) :
    keepFrom cut gap (written :: rest) =
      (gap, { written with gap := (keepFrom cut written.gap rest).1 } ::
        (keepFrom cut written.gap rest).2) := by
  simp [keepFrom, hCut]

/-- Attributes keep their names and values. -/
theorem forall_mem_keepFrom {attributes : List WrittenAttribute} {holds : WrittenAttribute → Prop}
    (hGap : ∀ written gap, holds written → holds { written with gap := gap })
    (hAll : ∀ written ∈ attributes, holds written) (gap : List Char) :
    ∀ written ∈ (keepFrom cut gap attributes).2, holds written := by
  induction attributes generalizing gap with
  | nil => simp [keepFrom]
  | cons written rest ih =>
      have hRest := ih (fun other hMem => hAll other (List.mem_cons_of_mem _ hMem)) written.gap
      cases hCut : cut written with
      | true => simpa [keepFrom_cut hCut] using hRest
      | false =>
          rw [keepFrom_kept hCut]
          intro other hMem
          rcases List.mem_cons.1 hMem with rfl | hMem
          · exact hGap written _ (hAll written (List.mem_cons_self ..))
          · exact hRest other hMem

/-- Gaps are made of separators, whatever is cut out between them. -/
theorem separators_keepFrom {attributes : List WrittenAttribute} {gap : List Char}
    (hFirst : ∀ c ∈ gap, isSeparator c = true)
    (hGaps : ∀ written ∈ attributes, ∀ c ∈ written.gap, isSeparator c = true) :
    ∀ c ∈ (keepFrom cut gap attributes).1, isSeparator c = true := by
  induction attributes generalizing gap with
  | nil => simpa [keepFrom] using hFirst
  | cons written rest ih =>
      have hLater := ih (hGaps written (List.mem_cons_self ..))
        fun other hMem => hGaps other (List.mem_cons_of_mem _ hMem)
      cases hCut : cut written with
      | false => simpa [keepFrom_kept hCut] using hFirst
      | true =>
          rw [keepFrom_cut hCut]
          intro c hMem
          rcases List.mem_append.1 hMem with hMem | hMem
          · exact hFirst c (mem_of_mem_trimEnd hMem)
          · unfold keptGap at hMem
            split at hMem
            · rw [List.mem_singleton.1 hMem]
              decide
            · exact hLater c hMem

/-- What is left behind a cut is kept apart by its gap. -/
theorem keptApart_append {gap ending : List Char} {kept : List WrittenAttribute}
    (hGap : ∀ c ∈ gap, isSeparator c = true)
    (hNames : ∀ written ∈ kept, IsAttributeName written.name)
    (hEnding : ∀ c ∈ ending.head?, c = '/' ∨ c = '>') :
    keptApart (gap ++ (kept.flatMap WrittenAttribute.source ++ ending)) =
      keptGap gap kept ++ (kept.flatMap WrittenAttribute.source ++ ending) := by
  cases gap with
  | cons c gap =>
      have hC := hGap c (List.mem_cons_self ..)
      simp only [isSeparator, Bool.or_eq_true, decide_eq_true_eq] at hC
      rcases hC with hC | hC <;> simp [keptApart, keptGap, hC]
  | nil =>
      cases kept with
      | nil =>
          cases ending with
          | nil => rfl
          | cons c ending =>
              rcases hEnding c rfl with rfl | rfl <;> simp [keptApart, keptGap]
      | cons written kept =>
          have hName := hNames written (List.mem_cons_self ..)
          obtain ⟨c, name, hCons⟩ := List.exists_cons_of_ne_nil hName.ne_nil
          rw [hCons] at hName
          have hBegins := hName.1
          simp only [beginsName, Bool.not_eq_true', Bool.or_eq_false_iff,
            decide_eq_false_iff_not] at hBegins
          simp [keptApart, keptGap, WrittenAttribute.source, WrittenAttribute.body, hCons, hBegins]

/-- The cuts leave the text of the attributes that are kept. Only white space of the gap before the
first cut is taken away. -/
theorem cutFrom_eq_keepFrom {attributes : List WrittenAttribute} {gap ending : List Char}
    (hNames : ∀ written ∈ attributes, IsAttributeName written.name)
    (hFirst : ∀ c ∈ gap, isSeparator c = true)
    (hGaps : ∀ written ∈ attributes, ∀ c ∈ written.gap, isSeparator c = true)
    (hClear : CutsStandClear cut attributes)
    (hEnding : ∀ c ∈ ending.head?, c = '/' ∨ c = '>') (front : List Char)
    (hTrim : ∀ written ∈ attributes.head?, cut written = true →
      trimEnd (front ++ gap) = front ++ trimEnd gap) :
    cutFrom cut ending (front ++ gap) attributes =
      front ++ ((keepFrom cut gap attributes).1 ++
        ((keepFrom cut gap attributes).2.flatMap WrittenAttribute.source ++ ending)) := by
  induction attributes generalizing front gap with
  | nil => simp [cutFrom, keepFrom]
  | cons written rest ih =>
      have hRestNames := fun other hMem => hNames other (List.mem_cons_of_mem _ hMem)
      have hRestGaps := fun other hMem => hGaps other (List.mem_cons_of_mem _ hMem)
      have hGap := hGaps written (List.mem_cons_self ..)
      have hRestClear : CutsStandClear cut rest := by
        cases rest with
        | nil => trivial
        | cons other rest => exact hClear.2
      cases hCut : cut written with
      | true =>
          have hLater := ih hRestNames hGap hRestGaps hRestClear [] fun _ _ _ => rfl
          rw [List.nil_append, List.nil_append] at hLater
          rw [cutFrom, if_pos hCut, hTrim written rfl hCut, hLater,
            keptApart_append (separators_keepFrom hGap hRestGaps)
              (forall_mem_keepFrom (fun _ _ hName => hName) hRestNames _) hEnding,
            keepFrom_cut hCut]
          simp
      | false =>
          have hLater := ih hRestNames hGap hRestGaps hRestClear written.body (by
            intro other hOther hOtherCut
            cases rest with
            | nil => simp at hOther
            | cons next rest =>
                cases hOther
                exact trimEnd_append (.inl (hClear.1 hOtherCut)))
          rw [cutFrom, if_neg (by simp [hCut]), WrittenAttribute.source, hLater,
            keepFrom_kept hCut]
          simp [WrittenAttribute.source, WrittenAttribute.body]

end

end AccessibleMarkup.Markup
