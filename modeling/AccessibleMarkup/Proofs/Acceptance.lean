import AccessibleMarkup.Proofs.ClosingCuts
import AccessibleMarkup.Proofs.Gate
import AccessibleMarkup.Proofs.Rereading

/-! The tags that the cleanup leaves. The cut attributes are decided on in the text as it was, and the
gate reads the text as it is now. A tag without its invalid attributes carries none, and its text is
read as that tag exactly where the cuts close up. -/
namespace AccessibleMarkup

open AccessibleMarkup.Markup
open AccessibleMarkup.Text

namespace Markup

/-- A dictionary of some of the names is part of the dictionary of all of them. -/
theorem mem_dictionary_of_filter {occurrences : List Attribute} {keep : String → Bool}
    {known : Attribute}
    (hMem : known ∈ dictionary (occurrences.filter fun other => keep other.name)) :
    known ∈ dictionary occurrences ∧ keep known.name = true := by
  simp only [dictionary, List.mem_map, List.mem_eraseDups] at hMem ⊢
  obtain ⟨name, ⟨found, hFound, rfl⟩, rfl⟩ := hMem
  obtain ⟨hFound, hKeep⟩ := List.mem_filter.1 hFound
  have hSame : (fun other : Attribute => decide (other.name = found.name)) =
      fun other => decide (keep other.name = true ∧ decide (other.name = found.name) = true) := by
    funext other
    by_cases hName : other.name = found.name
    · simp [hName, hKeep]
    · simp [hName]
  refine ⟨⟨found.name, ⟨found, hFound, rfl⟩, ?_⟩, hKeep⟩
  rw [← List.filter_reverse, List.find?_filter, ← hSame]

/-- The attributes that are kept are read as before. -/
theorem map_read_keepFrom (cut : WrittenAttribute → Bool) (gap : List Char)
    (attributes : List WrittenAttribute) :
    (keepFrom cut gap attributes).2.map WrittenAttribute.read =
      (attributes.filter fun written => !cut written).map WrittenAttribute.read := by
  induction attributes generalizing gap with
  | nil => rfl
  | cons written rest ih =>
      cases hCut : cut written with
      | true => simp [keepFrom_cut hCut, hCut, ih]
      | false => simp [keepFrom_kept hCut, hCut, ih, WrittenAttribute.read, WrittenAttribute.value?]

/-- Attributes and gaps stay as they are where nothing is cut. -/
theorem keepFrom_eq_self {cut : WrittenAttribute → Bool} (hNone : ∀ written, cut written = false)
    (gap : List Char) (attributes : List WrittenAttribute) :
    keepFrom cut gap attributes = (gap, attributes) := by
  induction attributes generalizing gap with
  | nil => rfl
  | cons written rest ih => simp [keepFrom_kept (hNone written), ih]

/-- A tag that nothing is cut out of stays what it is. -/
theorem OpenTag.without_eq_self {tag : OpenTag} {cut : List Char → Bool}
    (hNone : ∀ name, cut name = false) : tag.without cut = tag := by
  simp [OpenTag.without, keepFrom_eq_self fun written => hNone written.name]

/-- What cuts leave holds no quotes that were not there. -/
theorem quotesWithin_cutFrom (cut : WrittenAttribute → Bool) (ending before : List Char)
    (attributes : List WrittenAttribute) :
    QuotesWithin (cutFrom cut ending before attributes)
      (before ++ (attributes.flatMap WrittenAttribute.source ++ ending)) := by
  induction attributes generalizing before with
  | nil => exact fun c hMem _ => hMem
  | cons written rest ih =>
      rw [cutFrom, List.flatMap_cons, List.append_assoc]
      split
      · intro c hMem hQuote
        rcases List.mem_append.1 hMem with hMem | hMem
        · exact List.mem_append_left _ (mem_of_mem_trimEnd hMem)
        · have hLeft : c ∈ cutFrom cut ending written.gap rest := by
            unfold keptApart at hMem
            split at hMem
            · simp at hMem
            · split at hMem
              · exact hMem
              · rcases List.mem_cons.1 hMem with rfl | hMem
                · exact absurd hQuote (by decide)
                · exact hMem
          have hWithin := ih written.gap c hLeft hQuote
          simp only [WrittenAttribute.source, List.append_assoc]
          exact List.mem_append_right _ (List.mem_append_right _ hWithin)
      · exact (ih written.source).append_left before

end Markup

namespace Aria

def cleanToken : Token → Token :=
  Token.rewrite cleanTag fun tag => tag.without (cuts tag)

/-- The cuts close up in all the tags among tokens that `dropped` follows. -/
def TagsClose (dropped : List Char) : List Token → Prop
  | [] => True
  | token :: rest =>
    (∀ tag, token.content = .openTag tag →
      tag.CutsClose (cuts tag) (rewriteTags cleanTag rest ++ dropped)) ∧
      TagsClose dropped rest

theorem head?_cleanTag (tag : OpenTag) : (cleanTag tag).head? = some '<' := by
  have hTrim : trimEnd ('<' :: tag.name ++ tag.gap) = '<' :: trimEnd (tag.name ++ tag.gap) :=
    @trimEnd_append ['<'] _ (.inl rfl)
  unfold cleanTag OpenTag.cutText
  cases tag.attributes with
  | nil => rfl
  | cons written rest =>
      rw [cutFrom]
      split
      · rw [hTrim]
        rfl
      · rfl

/-- A tag without some attributes is read as the tag is, with these attributes left out. -/
theorem map_read_without (tag : OpenTag) :
    (tag.without (cuts tag)).attributes.map WrittenAttribute.read =
      (tag.attributes.map WrittenAttribute.read).filter
        fun known => !(invalidNames tag).contains known.name := by
  rw [OpenTag.attributes_without, map_read_keepFrom, List.filter_map]
  rfl

/-- The attributes that the cleanup keeps are valid. -/
theorem invalidNames_without (tag : OpenTag) : invalidNames (tag.without (cuts tag)) = [] := by
  rw [List.eq_nil_iff_forall_not_mem]
  intro name hName
  obtain ⟨known, hKnown, rfl⟩ := List.mem_map.1 hName
  obtain ⟨hKnown, hInvalid⟩ := List.mem_filter.1 hKnown
  rw [OpenTag.readAttributes, foldl_addAttribute, map_read_without] at hKnown
  obtain ⟨hOld, hKept⟩ :=
    @mem_dictionary_of_filter _ (fun name => !(invalidNames tag).contains name) _ hKnown
  have hCut : known.name ∈ invalidNames tag := by
    refine List.mem_map_of_mem (List.mem_filter.2 ⟨?_, hInvalid⟩)
    rw [OpenTag.readAttributes, foldl_addAttribute]
    exact hOld
  simp [hCut] at hKept

/-- Tags that were cleaned carry no invalid ARIA attribute. -/
theorem tagsValid_map_cleanToken (tokens : List Token) : TagsValid (tokens.map cleanToken) := by
  intro token hMem tag hContent
  obtain ⟨old, -, rfl⟩ := List.mem_map.1 hMem
  obtain ⟨oldTag, -, rfl⟩ := Token.exists_openTag_of_rewrite hContent
  exact invalidNames_without oldTag

/-- Tokens without invalid ARIA attributes stay what they are. -/
theorem map_cleanToken_eq_self {tokens : List Token}
    (hSource : ∀ token ∈ tokens, ∀ tag, token.content = .openTag tag → token.source = tag.source)
    (hValid : TagsValid tokens) : tokens.map cleanToken = tokens := by
  have hEach : ∀ token ∈ tokens, cleanToken token = token := by
    intro token hMem
    obtain ⟨content, source⟩ := token
    cases content with
    | openTag tag =>
        have hTag : source = tag.source := hSource _ hMem tag rfl
        have hNone : invalidNames tag = [] := hValid _ hMem tag rfl
        have hWithout : tag.without (cuts tag) = tag :=
          OpenTag.without_eq_self fun name => by simp [cuts, hNone]
        rw [cleanToken, Token.rewrite_openTag _ _ rfl, hWithout, cleanTag_eq_source hNone, hTag]
    | _ => rfl
  rw [List.map_congr_left hEach, List.map_id']

/-- The cleanup brings no quotes into a text. -/
theorem quotesWithin_rewriteTags {tokens : List Token}
    (hSource : ∀ token ∈ tokens, ∀ tag, token.content = .openTag tag → token.source = tag.source)
    (dropped : List Char) :
    QuotesWithin (rewriteTags cleanTag tokens ++ dropped)
      (tokens.flatMap Token.source ++ dropped) := by
  induction tokens with
  | nil => exact fun c hMem _ => hMem
  | cons token rest ih =>
      have hRest := ih fun other hMem => hSource other (List.mem_cons_of_mem _ hMem)
      rw [List.flatMap_cons, List.append_assoc]
      rcases token.content.openTag_or_other with ⟨tag, hContent⟩ | hOther
      · have hTag : QuotesWithin (cleanTag tag) tag.source := by
          have hCut := quotesWithin_cutFrom (fun written => cuts tag written.name) tag.ending
            ('<' :: tag.name ++ tag.gap) tag.attributes
          rw [cleanTag, OpenTag.cutText]
          simpa [OpenTag.source, OpenTag.sourceTail] using hCut
        rw [rewriteTags_cons_openTag _ hContent, List.append_assoc,
          hSource token (List.mem_cons_self ..) tag hContent]
        intro c hMem hQuote
        rcases List.mem_append.1 hMem with hMem | hMem
        · exact List.mem_append_left _ (hTag c hMem hQuote)
        · exact List.mem_append_right _ (hRest c hMem hQuote)
      · rw [rewriteTags_cons_other _ hOther, List.append_assoc]
        exact hRest.append_left token.source

/-- The cuts close up exactly where the tags without invalid attributes are read where they
stand. -/
theorem tagsClose_iff {dropped : List Char} {tokens : List Token} (hEnd : TagsEnd dropped tokens) :
    TagsClose dropped tokens ↔ TagsEnd dropped (tokens.map cleanToken) := by
  induction tokens with
  | nil => rfl
  | cons token rest ih =>
      have hQuotes := quotesWithin_rewriteTags hEnd.2.source_of_openTag dropped
      rw [TagsClose, cleanToken, tagsEnd_map_rewrite_cons, ih hEnd.2]
      refine and_congr_left fun _ => forall_congr' fun tag => forall_congr' fun hContent => ?_
      exact (hEnd.1 tag hContent).2.cutsClose_iff hQuotes
        fun name hName => isQuote_of_isAriaName (isAriaName_of_cuts hName)

end Aria

end AccessibleMarkup
