import AccessibleMarkup.Proofs.ClosingCuts
import AccessibleMarkup.Proofs.ElementTags
import AccessibleMarkup.Proofs.Labels
import AccessibleMarkup.Proofs.Passes
import AccessibleMarkup.Proofs.Rewriting

/-! Tags with a label, as tags. The label is the first attribute of such a tag, so what follows the
tag is read as it was, and the attributes behind the label are what they were. What stands before
the tag may be read differently: a value that was left open by a double quote ends at the label. -/
namespace AccessibleMarkup

open AccessibleMarkup.Markup
open AccessibleMarkup.Text

/-- The second text is the first one with copies of a piece put in. -/
inductive Text.PutInto (piece : List Char) : List Char → List Char → Prop where
  | same (text : List Char) : PutInto piece text text
  | copy {c : Char} {text other : List Char} (tail : PutInto piece text other) :
      PutInto piece (c :: text) (c :: other)
  | put {text other : List Char} (tail : PutInto piece text other) :
      PutInto piece text (piece ++ other)

namespace Text.PutInto

variable {piece text other : List Char} (hPut : PutInto piece text other)
include hPut

theorem append (front : List Char) : PutInto piece (front ++ text) (front ++ other) := by
  induction front with
  | nil => exact hPut
  | cons c front ih => exact .copy ih

/-- What was put in brings no characters but its own. -/
theorem mem {c : Char} (hMem : c ∈ other) : c ∈ text ∨ c ∈ piece := by
  induction hPut with
  | same => exact .inl hMem
  | copy tail ih =>
      rcases List.mem_cons.1 hMem with rfl | hMem
      · exact .inl (List.mem_cons_self ..)
      · exact (ih hMem).imp_left (List.mem_cons_of_mem _)
  | put tail ih =>
      rcases List.mem_append.1 hMem with hMem | hMem
      · exact .inr hMem
      · exact ih hMem

/-- No character goes when something is put in. -/
theorem mem_of_mem {c : Char} (hMem : c ∈ text) : c ∈ other := by
  induction hPut with
  | same => exact hMem
  | copy tail ih =>
      rcases List.mem_cons.1 hMem with rfl | hMem
      · exact List.mem_cons_self ..
      · exact List.mem_cons_of_mem _ (ih hMem)
  | put tail ih => exact List.mem_append_right _ (ih hMem)

end Text.PutInto

/-- Every tag is read where it stands when the tags behind it are written anew. -/
def Markup.TagsRemain (write : OpenTag → List Char) (dropped : List Char) : List Token → Prop
  | [] => True
  | token :: rest =>
    (∀ tag, token.content = .openTag tag → tag.Ends (rewriteTags write rest ++ dropped)) ∧
      TagsRemain write dropped rest

namespace Markup

/-- Attributes may follow another character, as long as this one lets an attribute begin. -/
theorem AttributesEnd.behind {before other : Char} {attributes : List WrittenAttribute}
    {rest : List Char} (hEnd : AttributesEnd before attributes rest)
    (hAdmits : attributes ≠ [] → admitsAttribute other = true)
    (hStops : Stops beginsName rest) : AttributesEnd other attributes rest := by
  cases attributes with
  | nil => exact readAttribute?_eq_none_iff.2 (.inr hStops)
  | cons written more =>
      obtain ⟨-, hName, hEnds, hGap, hMore⟩ := hEnd
      rw [lastOr_of_ne_nil hName before other] at hMore
      exact ⟨hAdmits (by simp), hName, hEnds, hGap, hMore⟩

/-- An attribute was read behind a character that admits one. -/
theorem AttributesEnd.admits {before : Char} {attributes : List WrittenAttribute}
    {rest : List Char} (hEnd : AttributesEnd before attributes rest) (hSome : attributes ≠ []) :
    admitsAttribute before = true := by
  cases attributes with
  | nil => exact absurd rfl hSome
  | cons written more => exact hEnd.1

theorem OpenTag.stops_ending (tag : OpenTag) (behind : List Char) :
    Stops beginsName (tag.ending ++ behind) := by
  unfold ending
  split <;> rfl

/-- An attribute of a new name stays in front of those that are added behind it. -/
theorem foldl_addAttribute_cons {first : Attribute} {occurrences : List Attribute}
    (hNew : ∀ other ∈ occurrences, other.name ≠ first.name) (known : List Attribute) :
    occurrences.foldl addAttribute (first :: known) =
      first :: occurrences.foldl addAttribute known := by
  induction occurrences generalizing known with
  | nil => rfl
  | cons added rest ih =>
      have hName : first.name ≠ added.name := (hNew added (List.mem_cons_self ..)).symm
      have hAdd : addAttribute (first :: known) added = first :: addAttribute known added := by
        simp only [addAttribute, List.any_cons, hName, decide_false, Bool.false_or]
        split
        · simp [hName]
        · rfl
      rw [List.foldl_cons, List.foldl_cons, hAdd,
        ih fun other hMem => hNew other (List.mem_cons_of_mem _ hMem)]

/-- The gap before the attributes of a tag does not hang on what stands behind the tag. -/
theorem GapStops.before_attributes {tag : OpenTag} {gap behind : List Char} {before : Char}
    {attributes : List WrittenAttribute}
    (hGap : GapStops gap (attributes.flatMap WrittenAttribute.source ++ (tag.ending ++ behind)))
    (hEnd : AttributesEnd before attributes (tag.ending ++ behind)) (other : List Char) :
    GapStops gap (attributes.flatMap WrittenAttribute.source ++ (tag.ending ++ other)) := by
  cases attributes with
  | nil => exact hGap.before_ending other
  | cons written rest =>
      rw [flatMap_source_cons_append] at hGap ⊢
      exact hGap.before_name hEnd.2.1 _

/-- Attributes are read before other text as they were, as long as it closes no quote that they
leave open. -/
theorem AttributesEnd.of_leavesOpen {tag : OpenTag} {behind other : List Char}
    {attributes : List WrittenAttribute} {before : Char}
    (hEnd : AttributesEnd before attributes (tag.ending ++ behind))
    (hLeaves : LeavesOpen (attributes.flatMap WrittenAttribute.source ++ (tag.ending ++ behind))
      behind other) : AttributesEnd before attributes (tag.ending ++ other) := by
  induction attributes generalizing before with
  | nil => exact readAttribute?_eq_none_iff.2 (.inr (tag.stops_ending other))
  | cons written rest ih =>
      obtain ⟨hAdmits, hName, hEnds, hGap, hRest⟩ := hEnd
      have hText : (written :: rest).flatMap WrittenAttribute.source ++ (tag.ending ++ behind) =
          written.body ++ (written.gap ++ (rest.flatMap WrittenAttribute.source ++ tag.ending) ++
            behind) := by
        simp [WrittenAttribute.source]
      rw [hText] at hLeaves
      have hBehind : LeavesOpen (rest.flatMap WrittenAttribute.source ++ (tag.ending ++ behind))
          behind other := by
        rw [List.append_assoc written.gap, List.append_assoc (rest.flatMap _)] at hLeaves
        exact hLeaves.of_append.of_append
      have hAnchors :=
        tag.anchors_ending (written.gap ++ rest.flatMap WrittenAttribute.source) behind
      rw [List.append_assoc] at hAnchors
      have hJoin (following : List Char) :
          written.gap ++ (rest.flatMap WrittenAttribute.source ++ (tag.ending ++ following)) =
            written.gap ++ (rest.flatMap WrittenAttribute.source ++ tag.ending) ++ following := by
        simp
      rw [hJoin] at hEnds
      refine ⟨hAdmits, hName, ?_, hGap.before_attributes hRest other, ih hRest hBehind⟩
      rw [hJoin]
      exact hEnds.of_leavesOpen hAnchors hLeaves

/-- The name of a tag ends within the tag. -/
theorem OpenTag.Ends.nameStops_behind {tag : OpenTag} {behind : List Char} (hEnds : tag.Ends behind)
    (other : List Char) :
    Stops continuesTagName (tag.gap ++ (tag.attributeText ++ (tag.ending ++ other))) := by
  have hNonempty : tag.gap ++ (tag.attributeText ++ tag.ending) ≠ [] := by
    unfold ending
    split <;> simp
  have hJoin (following : List Char) :
      tag.gap ++ (tag.attributeText ++ (tag.ending ++ following)) =
        tag.gap ++ (tag.attributeText ++ tag.ending) ++ following := by simp
  have hStops := hEnds.nameStops
  rw [hJoin, stops_append_iff hNonempty] at hStops ⊢
  exact hStops

/-- A tag is read before other text as it was, as long as this closes no quote that the tag leaves
open. -/
theorem OpenTag.Ends.of_leavesOpen {tag : OpenTag} {behind other : List Char}
    (hEnds : tag.Ends behind) (hLeaves : LeavesOpen (tag.source ++ behind) behind other) :
    tag.Ends other := by
  have hText : tag.source ++ behind = '<' :: tag.name ++ tag.gap ++
      (tag.attributes.flatMap WrittenAttribute.source ++ (tag.ending ++ behind)) := by
    simp [source, sourceTail]
  rw [hText] at hLeaves
  exact ⟨hEnds.name, hEnds.nameStops_behind other,
    hEnds.gapStops.before_attributes hEnds.attributes other,
    hEnds.attributes.of_leavesOpen hLeaves.of_append⟩

end Markup

namespace Rule

def labelledTag (rule : Rule) (tag : OpenTag) : OpenTag :=
  { tag with gap := [' '], attributes := rule.labelAttribute tag.gap :: tag.attributes }

@[simp] theorem ending_labelledTag (rule : Rule) (tag : OpenTag) :
    (rule.labelledTag tag).ending = tag.ending := rfl

/-- The tag with the label in front of its attributes is written as the tag with the label behind
its name. -/
theorem source_labelledTag (rule : Rule) (tag : OpenTag) :
    (rule.labelledTag tag).source = rule.labelText tag := by
  rw [OpenTag.source, OpenTag.sourceTail, ending_labelledTag]
  simp [labelledTag, labelText, OpenTag.attributeText, WrittenAttribute.source, label_eq]

/-- A tag with the label if the rule selects it. -/
def changeTag (rule : Rule) (tag : OpenTag) : OpenTag :=
  if rule.selectsTag tag then rule.labelledTag tag else tag

/-- A tag is read with the label where it is written with it. -/
theorem source_changeTag (rule : Rule) (tag : OpenTag) :
    (rule.changeTag tag).source = rule.labelTag tag := by
  unfold changeTag labelTag
  split
  · exact source_labelledTag rule tag
  · rfl

@[simp] theorem name_changeTag (rule : Rule) (tag : OpenTag) :
    (rule.changeTag tag).name = tag.name := by
  unfold changeTag
  split <;> rfl

@[simp] theorem selfClosed_changeTag (rule : Rule) (tag : OpenTag) :
    (rule.changeTag tag).selfClosed = tag.selfClosed := by
  unfold changeTag
  split <;> rfl

theorem head?_labelTag (rule : Rule) (tag : OpenTag) : (rule.labelTag tag).head? = some '<' := by
  unfold labelTag
  split <;> rfl

/-- The token of a tag with its label. -/
def labelToken (rule : Rule) : Token → Token :=
  Token.rewrite rule.labelTag rule.changeTag

def labelElement (rule : Rule) (element : Element) : Element :=
  if rule.selects element then
    { element with attributes := ⟨rule.attributeName, rule.value⟩ :: element.attributes }
  else element

/-- A tag is written with the label put into it. -/
theorem putInto_labelText {rule : Rule} {text other : List Char}
    (hPut : PutInto rule.label text other) (tag : OpenTag) :
    PutInto rule.label (tag.source ++ text) (rule.labelText tag ++ other) := by
  have hBehind := hPut.append (tag.gap ++ (tag.attributeText ++ tag.ending))
  simpa only [tag.source_eq_append, labelText, List.append_assoc] using
    (PutInto.put hBehind).append ('<' :: tag.name)

/-- All that a rule brings into a text is its label. -/
theorem putInto_rewriteTags {rule : Rule} {tokens : List Token}
    (hSource : ∀ token ∈ tokens, ∀ tag, token.content = .openTag tag → token.source = tag.source)
    (dropped : List Char) :
    PutInto rule.label (tokens.flatMap Token.source ++ dropped)
      (rewriteTags rule.labelTag tokens ++ dropped) := by
  induction tokens with
  | nil => exact .same _
  | cons token rest ih =>
      have hRest := ih fun other hOther => hSource other (List.mem_cons_of_mem _ hOther)
      rw [List.flatMap_cons, List.append_assoc]
      rcases token.content.openTag_or_other with ⟨tag, hContent⟩ | hOther
      · rw [rewriteTags_cons_openTag _ hContent, hSource token (List.mem_cons_self ..) tag hContent,
          List.append_assoc]
        cases hSelects : rule.selectsTag tag with
        | false =>
            have hWrite : rule.labelTag tag = tag.source := by simp [labelTag, hSelects]
            rw [hWrite]
            exact hRest.append _
        | true =>
            have hWrite : rule.labelTag tag = rule.labelText tag := by simp [labelTag, hSelects]
            rw [hWrite]
            exact putInto_labelText hRest tag
      · rw [rewriteTags_cons_other _ hOther, List.append_assoc]
        exact hRest.append _

/-- A tag with its label is read exactly where the tag is read without it. -/
theorem WritesAttribute.ends_labelledTag {rule : Rule} (hWrites : rule.WritesAttribute)
    {tag : OpenTag} {behind : List Char} (hEnds : tag.Ends behind) (other : List Char) :
    (rule.labelledTag tag).Ends other ↔ tag.Ends other := by
  have hStops : Stops beginsName (tag.ending ++ other) := tag.stops_ending other
  have hText : (rule.labelledTag tag).attributeText ++ ((rule.labelledTag tag).ending ++ other) =
      rule.labelBody ++ (tag.gap ++ (tag.attributeText ++ (tag.ending ++ other))) := by
    rw [ending_labelledTag]
    simp [labelledTag, OpenTag.attributeText, WrittenAttribute.source]
  have hGap : GapStops [' '] (rule.labelBody ++
      (tag.gap ++ (tag.attributeText ++ (tag.ending ++ other)))) := hWrites.splitGap_label _
  constructor
  · intro hLabelled
    obtain ⟨-, -, -, hGapStops, hAttributes⟩ := hLabelled.attributes
    exact ⟨hEnds.name, hEnds.nameStops_behind other, hGapStops,
      hAttributes.behind hEnds.attributes.admits hStops⟩
  · intro hOther
    have hAdmits : admitsAttribute (lastOr ' ' (rule.labelAttribute tag.gap).source) = true := by
      rw [WrittenAttribute.source, body_labelAttribute, gap_labelAttribute]
      cases hNil : tag.gap with
      | nil =>
          rw [List.append_nil, labelBody, lastOr, List.getLast?_concat]
          rfl
      | cons c gap =>
          rw [← hNil]
          exact admitsAttribute_lastOr (by simp [hNil]) hEnds.gapStops.separators ' ' _
    have hBlank : lastOr '<' (tag.name ++ [' ']) = ' ' := by simp [lastOr]
    refine ⟨hEnds.name, by rfl, ?_, ?_⟩
    · rw [hText]
      exact hGap
    · show AttributesEnd (lastOr '<' (tag.name ++ [' ']))
        (rule.labelAttribute tag.gap :: tag.attributes) (tag.ending ++ other)
      rw [hBlank]
      exact ⟨rfl, hWrites.name, hWrites.ends_labelAttribute _ _, hOther.gapStops,
        hOther.attributes.behind (fun _ => hAdmits) hStops⟩

section
variable {rule : Rule} (hRule : rule ∈ all)
include hRule

/-- Where a tag ends does not hang on its label. -/
theorem ends_changeTag {tag : OpenTag} {behind : List Char} (hEnds : tag.Ends behind)
    (other : List Char) : (rule.changeTag tag).Ends other ↔ tag.Ends other := by
  unfold changeTag
  split
  · exact (writesAttribute hRule).ends_labelledTag hEnds other
  · rfl

/-- The label comes first among the attributes of a tag that lacks it. -/
theorem readAttributes_labelledTag {tag : OpenTag}
    (hLacks : tag.readAttributes.any (fun known => known.name = rule.attributeName) = false) :
    (rule.labelledTag tag).readAttributes =
      ⟨rule.attributeName, rule.value⟩ :: tag.readAttributes := by
  rw [OpenTag.readAttributes, foldl_addAttribute, any_name_dictionary] at hLacks
  have hNew : ∀ other ∈ tag.attributes.map WrittenAttribute.read,
      other.name ≠ rule.attributeName := by
    simpa [List.any_eq_false] using hLacks
  have hLabel : (rule.labelledTag tag).attributes.map WrittenAttribute.read =
      ⟨rule.attributeName, rule.value⟩ :: tag.attributes.map WrittenAttribute.read := by
    rw [labelledTag, List.map_cons, read_labelAttribute hRule]
  rw [OpenTag.readAttributes, hLabel, List.foldl_cons]
  exact foldl_addAttribute_cons hNew []

theorem value_labelAttribute (gap : List Char) :
    (rule.labelAttribute gap).value?.bind overlongReference? = none := by
  have hAll : ∀ rule ∈ all, (rule.labelAttribute []).value?.bind overlongReference? = none := by
    decide +kernel
  exact hAll rule hRule

/-- Putting labels into tags gives the elements their attribute. -/
theorem retags_labelElement : Retags rule.changeTag rule.labelElement where
  name := name_changeTag rule
  selfClosed := selfClosed_changeTag rule
  element tag position := by
    have hSelects : rule.selects (tag.element position) = rule.selectsTag tag := rfl
    unfold changeTag labelElement
    rw [hSelects]
    split
    · rename_i hSelected
      rw [OpenTag.element, readAttributes_labelledTag hRule (selectsTag_iff.1 hSelected).2]
      rfl
    · rfl
  values tag written hMem := by
    unfold changeTag at hMem
    split at hMem
    · rcases List.mem_cons.1 hMem with rfl | hMem
      · exact .inl (value_labelAttribute hRule _)
      · exact .inr ⟨written, hMem, rfl⟩
    · exact .inr ⟨written, hMem, rfl⟩

/-- The only quote of a label is the double one. -/
theorem quote_of_mem_label {c : Char} (hMem : c ∈ rule.label) (hQuote : isQuote c = true) :
    c = '"' := by
  have hAll : ∀ rule ∈ all, rule.label.all (fun c => !isQuote c || c = '"') = true := by decide
  simpa [hQuote] using List.all_eq_true.1 (hAll rule hRule) c hMem

/-- The tags with labels are read where they stand exactly where the tags without them are. -/
theorem tagsRemain_iff {dropped : List Char} {tokens : List Token} (hEnd : TagsEnd dropped tokens) :
    TagsRemain rule.labelTag dropped tokens ↔ TagsEnd dropped (tokens.map rule.labelToken) := by
  induction tokens with
  | nil => rfl
  | cons token rest ih =>
      rw [TagsRemain, labelToken, tagsEnd_map_rewrite_cons, ih hEnd.2]
      refine and_congr_left fun _ => forall_congr' fun tag => forall_congr' fun hContent => ?_
      rw [source_changeTag, ends_changeTag hRule (hEnd.1 tag hContent).2, and_iff_right rfl]

/-- Where no double quote is left open in the text, labels close none. -/
theorem tagsRemain_of_closed {dropped : List Char} {tokens : List Token}
    (hEnd : TagsEnd dropped tokens)
    (hClosed : ¬ OpensQuote '"' (tokens.flatMap Token.source ++ dropped)) :
    TagsRemain rule.labelTag dropped tokens := by
  induction tokens with
  | nil => trivial
  | cons token rest ih =>
      rw [List.flatMap_cons, List.append_assoc] at hClosed
      have hBehind : ¬ OpensQuote '"' (rest.flatMap Token.source ++ dropped) :=
        fun hOpens => hClosed (hOpens.append_left _)
      refine ⟨fun tag hContent => ?_, ih hEnd.2 hBehind⟩
      obtain ⟨hSource, hEnds⟩ := hEnd.1 tag hContent
      rw [hSource] at hClosed
      refine hEnds.of_leavesOpen fun mark hMem hQuote => ?_
      rcases (putInto_rewriteTags hEnd.2.source_of_openTag dropped).mem hMem with hOld | hLabel
      · exact .inl hOld
      · rw [quote_of_mem_label hRule hLabel hQuote]
        exact .inr hClosed

end

end Rule

end AccessibleMarkup
