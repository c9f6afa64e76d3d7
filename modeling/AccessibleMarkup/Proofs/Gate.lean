import AccessibleMarkup.Proofs.ElementTags

/-! What the gate accepts. It accepts a text exactly where the cleanup would change nothing: a tag
with an invalid ARIA attribute gets shorter, whatever blanks are put in. -/
namespace AccessibleMarkup

open AccessibleMarkup.Markup
open AccessibleMarkup.Text

/-- Lower case makes no more than two characters of one. -/
theorem Text.length_lowerInContext_le (afterCased : Bool) (c : Char) (rest : List Char) :
    (lowerInContext afterCased c rest).length ≤ 2 := by
  unfold lowerInContext lowerChar
  repeat' split
  all_goals simp

/-- No character has more than two in lower case. -/
theorem Text.length_lowercase_le (text : List Char) :
    (lowercase text).length ≤ 2 * text.length := by
  suffices hOnto : ∀ afterCased, (lowercaseOnto [] afterCased text).length ≤ 2 * text.length from
    hOnto false
  induction text with
  | nil =>
      intro afterCased
      simp [lowercaseOnto]
  | cons c rest ih =>
      intro afterCased
      have hFirst := length_lowerInContext_le afterCased c rest
      have hRest := ih (if isPassedOver c then afterCased else isCased c)
      rw [lowercaseOnto, lowercaseOnto_eq]
      simp only [List.append_nil, List.reverse_reverse, List.length_append, List.length_cons]
      omega

namespace Markup

theorem length_trimEnd_le (text : List Char) : (trimEnd text).length ≤ text.length := by
  have hLength := (List.dropWhile_sublist isBlank (l := text.reverse)).length_le
  simpa [trimEnd] using hLength

/-- What follows a cut gets no more than one character longer. -/
theorem length_keptApart_le (text : List Char) : (keptApart text).length ≤ text.length + 1 := by
  unfold keptApart
  split
  · simp
  · split <;> simp

/-- Every cut makes the tag shorter, even where a blank is put in. -/
theorem length_cutFrom_le {cut : WrittenAttribute → Bool} {attributes : List WrittenAttribute}
    (hLong : ∀ written ∈ attributes, cut written = true → 2 ≤ written.body.length)
    (ending before : List Char) :
    (cutFrom cut ending before attributes).length + attributes.countP cut ≤
      (before ++ attributes.flatMap WrittenAttribute.source ++ ending).length := by
  induction attributes generalizing before with
  | nil => simp [cutFrom]
  | cons written rest ih =>
      have hTail := ih fun other hMem => hLong other (List.mem_cons_of_mem _ hMem)
      by_cases hCut : cut written = true
      · have hBody := hLong written (List.mem_cons_self ..) hCut
        have hGap := hTail written.gap
        have hTrim := length_trimEnd_le before
        have hApart := length_keptApart_le (cutFrom cut ending written.gap rest)
        simp only [cutFrom, hCut, if_true, List.countP_cons_of_pos, List.flatMap_cons,
          WrittenAttribute.source, List.length_append] at hGap ⊢
        omega
      · have hSource := hTail written.source
        simp only [cutFrom, hCut, Bool.false_eq_true, if_false, List.flatMap_cons,
          List.length_append, not_false_eq_true, List.countP_cons_of_neg] at hSource ⊢
        omega

end Markup

namespace Aria

/-- The name of an ARIA attribute is long, in any case. -/
theorem length_of_isAriaName {name : List Char}
    (hAria : isAriaName (String.ofList (lowercase name)) = true) : 2 ≤ name.length := by
  have hLower := length_lowercase_le name
  simp only [isAriaName, String.toList_ofList, List.isPrefixOf_iff_prefix] at hAria
  have hFront := hAria.length_le
  have hFive : "aria-".toList.length = 5 := rfl
  omega

/-- A tag with an invalid ARIA attribute gets shorter. -/
theorem length_cleanTag_le (tag : OpenTag) :
    (cleanTag tag).length + tag.attributes.countP (fun written => cuts tag written.name) ≤
      tag.source.length := by
  have hLong : ∀ written ∈ tag.attributes, cuts tag written.name = true →
      2 ≤ written.body.length := by
    intro written _ hCuts
    have hName := length_of_isAriaName (isAriaName_of_cuts hCuts)
    simp only [WrittenAttribute.body, List.length_append]
    omega
  have hLength := length_cutFrom_le hLong tag.ending ('<' :: tag.name ++ tag.gap)
  have hSource : tag.source =
      '<' :: tag.name ++ tag.gap ++ tag.attributes.flatMap WrittenAttribute.source ++
        tag.ending := by
    simp [OpenTag.source, OpenTag.sourceTail]
  rw [← hSource] at hLength
  exact hLength

/-- The tags among tokens carry no invalid ARIA attribute. -/
def TagsValid (tokens : List Token) : Prop :=
  ∀ token ∈ tokens, ∀ tag, token.content = .openTag tag → invalidNames tag = []

theorem tagsValid_cons {token : Token} {rest : List Token} :
    TagsValid (token :: rest) ↔
      (∀ tag, token.content = .openTag tag → invalidNames tag = []) ∧ TagsValid rest := by
  simp [TagsValid]

/-- The tags among tokens are those of the openings. -/
theorem tagsValid_iff_openings {tokens : List Token} (before : List Char) :
    TagsValid tokens ↔ ∀ opening ∈ openings before tokens, invalidNames opening.tag = [] := by
  induction tokens generalizing before with
  | nil => simp [TagsValid]
  | cons token rest ih =>
      rw [tagsValid_cons, ih (before ++ token.source)]
      rcases token.content.openTag_or_other with ⟨tag, hContent⟩ | hOther
      · rw [openings_cons_openTag before rest hContent]
        simp [hContent]
      · rw [openings_cons_other before rest hOther]
        exact ⟨fun hValid => hValid.2,
          fun hRest => ⟨fun tag hContent => absurd hContent (hOther tag), hRest⟩⟩

/-- The names of a tag are those of its attributes in lower case. -/
theorem mem_names_readAttributes {tag : OpenTag} {name : String} :
    name ∈ tag.readAttributes.map (·.name) ↔
      ∃ written ∈ tag.attributes, String.ofList (lowercase written.name) = name := by
  rw [OpenTag.readAttributes, foldl_addAttribute]
  simp [dictionary, List.mem_eraseDups, WrittenAttribute.read]

/-- A tag carries an invalid ARIA attribute exactly where one of its attributes is cut out. -/
theorem invalidNames_eq_nil_iff {tag : OpenTag} :
    invalidNames tag = [] ↔ tag.attributes.countP (fun written => cuts tag written.name) = 0 := by
  rw [List.countP_eq_zero]
  constructor
  · intro hNone written _
    simp [cuts, hNone]
  · intro hKept
    rw [List.eq_nil_iff_forall_not_mem]
    intro name hName
    have hKnown : name ∈ tag.readAttributes.map (·.name) := by
      obtain ⟨known, hMem, rfl⟩ := List.mem_map.1 hName
      exact List.mem_map_of_mem (List.mem_filter.1 hMem).1
    obtain ⟨written, hWritten, rfl⟩ := mem_names_readAttributes.1 hKnown
    exact hKept written hWritten (List.contains_iff_mem.2 hName)

/-- The cleanup changes no token exactly where no tag carries an invalid ARIA attribute. -/
theorem rewriteTags_cleanTag {tokens : List Token}
    (hSource : ∀ token ∈ tokens, ∀ tag, token.content = .openTag tag → token.source = tag.source) :
    (rewriteTags cleanTag tokens).length ≤ (tokens.flatMap Token.source).length ∧
      (rewriteTags cleanTag tokens = tokens.flatMap Token.source ↔ TagsValid tokens) := by
  induction tokens with
  | nil => simp [rewriteTags, TagsValid]
  | cons token rest ih =>
      obtain ⟨hLength, hSame⟩ := ih fun other hMem => hSource other (List.mem_cons_of_mem _ hMem)
      rw [tagsValid_cons]
      rcases token.content.openTag_or_other with ⟨tag, hContent⟩ | hOther
      · have hTag := hSource token (List.mem_cons_self ..) tag hContent
        have hClean := length_cleanTag_le tag
        rw [rewriteTags_cons_openTag cleanTag hContent, List.flatMap_cons, hTag,
          List.length_append, List.length_append]
        refine ⟨by omega, ?_, ?_⟩
        · intro hJoin
          have hJoinLength := congrArg List.length hJoin
          simp only [List.length_append] at hJoinLength
          have hNone : invalidNames tag = [] := invalidNames_eq_nil_iff.2 (by omega)
          rw [cleanTag_eq_source hNone] at hJoin
          refine ⟨?_, hSame.1 (List.append_cancel_left hJoin)⟩
          intro other hOther
          rw [hContent] at hOther
          cases hOther
          exact hNone
        · rintro ⟨hNone, hRest⟩
          rw [cleanTag_eq_source (hNone tag hContent), hSame.2 hRest]
      · rw [rewriteTags_cons_other cleanTag hOther, List.flatMap_cons, List.length_append,
          List.length_append, List.append_cancel_left_eq, hSame]
        refine ⟨by omega, fun hRest => ⟨?_, hRest⟩, fun hValid => hValid.2⟩
        intro tag hContent
        exact absurd hContent (hOther tag)

section
variable {text : List Char} {document : Document} (hRead : Document.read text = .ok document)
include hRead

/-- The cleanup leaves a text as it is exactly where no tag carries an invalid ARIA attribute. -/
theorem clean_eq_self_iff : (clean text).outcome = .ok text ↔ TagsValid (scan text).tokens := by
  obtain ⟨hSource, -, -, hJoin⟩ := readable_of_read hRead
  rw [clean_of_read hRead, ← (rewriteTags_cleanTag hSource).2]
  constructor
  · intro hClean
    rw [Except.ok.injEq] at hClean
    exact List.append_cancel_right (hClean.trans hJoin.symm)
  · intro hSame
    rw [hSame, hJoin]

/-- The gate accepts a text exactly where no tag carries an invalid ARIA attribute. -/
theorem gate_eq_ok_iff : gate text = .ok () ↔ TagsValid (scan text).tokens := by
  obtain ⟨-, -, hElements, -⟩ := readable_of_read hRead
  have hFound : findInvalid document = [] ↔ TagsValid (scan text).tokens := by
    rw [tagsValid_iff_openings []]
    have hNodes : (∀ node ∈ document.nodes, invalidAttributes node.element = []) ↔
        ∀ element ∈ document.elements, invalidAttributes element = [] := by
      rw [← Document.map_element_nodes, List.forall_mem_map]
    simp only [findInvalid, List.flatMap_eq_nil_iff, List.map_eq_nil_iff, hNodes, hElements,
      List.forall_mem_map]
    refine forall_congr' fun opening => forall_congr' fun _ => ?_
    rw [← invalidAttributes_element, List.map_eq_nil_iff]
  simp only [gate, readDocument, hRead, failWith_ok, ok_bind]
  rw [← hFound]
  split <;> simp_all

end

end Aria

end AccessibleMarkup
