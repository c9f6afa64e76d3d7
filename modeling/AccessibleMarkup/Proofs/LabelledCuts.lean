import AccessibleMarkup.Proofs.Acceptance
import AccessibleMarkup.Proofs.PlainTexts

/-! Cuts in tags with labels. A label is valid and stands in front, so the same attributes are cut
out of a tag with and without it, and what is left is the tag with the label. The cuts close up
where they did before, as long as the text that is left leaves no double quote open. -/
namespace AccessibleMarkup

open AccessibleMarkup.Markup
open AccessibleMarkup.Text

namespace Rule

section
variable {rule : Rule} (hRule : rule ∈ all) {tag : OpenTag}
  (hSelects : rule.selectsTag tag = true)
include hRule hSelects

/-- The same attributes are cut out of a tag with and without its label. -/
theorem cuts_labelledTag : Aria.cuts (rule.labelledTag tag) = Aria.cuts tag := by
  have hNames : Aria.invalidNames (rule.labelledTag tag) = Aria.invalidNames tag := by
    rw [Aria.invalidNames, readAttributes_labelledTag hRule (selectsTag_iff.1 hSelects).2,
      List.filter_cons_of_neg (by simp [isValid_label hRule])]
    rfl
  funext name
  rw [Aria.cuts, Aria.cuts, hNames]

/-- The label is kept. -/
theorem cuts_label : Aria.cuts tag rule.attributeName.toList = false := by
  have hLower : String.ofList (lowercase rule.attributeName.toList) = rule.attributeName :=
    congrArg Attribute.name (read_labelAttribute hRule [])
  have hLacks : rule.attributeName ∉ Aria.invalidNames tag := by
    intro hName
    obtain ⟨known, hKnown, hSame⟩ := List.mem_map.1 hName
    have hNone := List.any_eq_false.1 (selectsTag_iff.1 hSelects).2 known
      (List.mem_filter.1 hKnown).1
    exact hNone (decide_eq_true hSame)
  rw [Aria.cuts, hLower]
  simpa using hLacks

/-- The cuts leave the label in front of what they leave without it. -/
theorem without_labelledTag :
    (rule.labelledTag tag).without (Aria.cuts (rule.labelledTag tag)) =
      rule.labelledTag (tag.without (Aria.cuts tag)) := by
  have hLabel := cuts_label hRule hSelects
  rw [cuts_labelledTag hRule hSelects, OpenTag.without, labelledTag, keepFrom_kept hLabel]
  rfl

/-- The cleanup takes no label out of a tag, and cuts what it cut without the label. -/
theorem cleanTag_labelledTag {behind : List Char} (hEnds : tag.Ends behind) :
    Aria.cleanTag (rule.labelledTag tag) = rule.labelText (tag.without (Aria.cuts tag)) := by
  rw [← source_labelledTag, ← without_labelledTag hRule hSelects]
  have hLabelled := ((writesAttribute hRule).ends_labelledTag hEnds behind).2 hEnds
  refine (hLabelled.cutText_eq_iff fun name hName =>
    Aria.isQuote_of_isAriaName (Aria.isAriaName_of_cuts hName)).2 fun written hFirst hCut => ?_
  obtain rfl : rule.labelAttribute tag.gap = written := Option.some.inj hFirst
  rw [cuts_labelledTag hRule hSelects] at hCut
  exact absurd hCut (Bool.eq_false_iff.1 (cuts_label hRule hSelects))

end

section
variable {rule : Rule} (hRule : rule ∈ all) {dropped : List Char}
include hRule

/-- What the cleanup leaves of the tags with labels is what it leaves of the tags, with the labels
put in. -/
theorem putInto_cleanTag {tokens : List Token} (hEnd : TagsEnd dropped tokens)
    (hCleaned : TagsEnd dropped (tokens.map Aria.cleanToken)) :
    PutInto rule.label (rewriteTags Aria.cleanTag tokens ++ dropped)
      (rewriteTags Aria.cleanTag (tokens.map rule.labelToken) ++ dropped) := by
  induction tokens with
  | nil => exact .same _
  | cons token rest ih =>
      rw [Aria.cleanToken, tagsEnd_map_rewrite_cons] at hCleaned
      have hRest := ih hEnd.2 hCleaned.2
      rw [List.map_cons]
      rcases token.content.openTag_or_other with ⟨tag, hContent⟩ | hOther
      · rw [labelToken, Token.rewrite_openTag _ _ hContent, rewriteTags_cons_openTag _ hContent,
          rewriteTags_cons_openTag _ rfl, List.append_assoc, List.append_assoc, changeTag]
        cases hSelects : rule.selectsTag tag with
        | false => exact hRest.append _
        | true =>
            simp only [if_true]
            rw [cleanTag_labelledTag hRule hSelects (hEnd.1 tag hContent).2,
              (hCleaned.1 tag hContent).1]
            exact putInto_labelText hRest _
      · rw [labelToken, Token.rewrite_other _ _ hOther, rewriteTags_cons_other _ hOther,
          rewriteTags_cons_other _ hOther, List.append_assoc, List.append_assoc]
        exact hRest.append _

/-- Where cuts close up and leave no double quote open, they close up with labels in the tags. -/
theorem tagsEnd_cleaned_labelled {tokens : List Token} (hEnd : TagsEnd dropped tokens)
    (hCleaned : TagsEnd dropped (tokens.map Aria.cleanToken))
    (hClosed : ¬ OpensQuote '"' (rewriteTags Aria.cleanTag tokens ++ dropped)) :
    TagsEnd dropped ((tokens.map rule.labelToken).map Aria.cleanToken) := by
  induction tokens with
  | nil => trivial
  | cons token rest ih =>
      rw [Aria.cleanToken, tagsEnd_map_rewrite_cons] at hCleaned
      obtain ⟨hTag, hRest⟩ := hCleaned
      have hPut := putInto_cleanTag hRule hEnd.2 hRest
      have hBehind : ¬ OpensQuote '"' (rewriteTags Aria.cleanTag rest ++ dropped) := by
        refine fun hOpens => hClosed ?_
        rw [rewriteTags, List.flatMap_cons, List.append_assoc]
        exact hOpens.append_left _
      rw [List.map_cons, Aria.cleanToken, tagsEnd_map_rewrite_cons]
      refine ⟨fun changed hChanged => ?_, ih hEnd.2 hRest hBehind⟩
      obtain ⟨tag, hContent, rfl⟩ := Token.exists_openTag_of_rewrite hChanged
      obtain ⟨hSource, hCleanedEnds⟩ := hTag tag hContent
      rw [rewriteTags_cons_openTag _ hContent, List.append_assoc, hSource] at hClosed
      have hEnds : (tag.without (Aria.cuts tag)).Ends
          (rewriteTags Aria.cleanTag (rest.map rule.labelToken) ++ dropped) := by
        refine hCleanedEnds.of_leavesOpen fun mark hMem hQuote => ?_
        rcases hPut.mem hMem with hOld | hLabel
        · exact .inl hOld
        · rw [quote_of_mem_label hRule hLabel hQuote]
          exact .inr hClosed
      unfold changeTag
      cases hSelects : rule.selectsTag tag with
      | false => exact ⟨hSource, hEnds⟩
      | true =>
          simp only [if_true]
          rw [cleanTag_labelledTag hRule hSelects (hEnd.1 tag hContent).2,
            without_labelledTag hRule hSelects, source_labelledTag]
          exact ⟨rfl, ((writesAttribute hRule).ends_labelledTag hCleanedEnds _).2 hEnds⟩

end

end Rule

/-- A text from which the cleanup takes what it is meant to take, also with labels in it. -/
structure PlainCuts (text : List Char) : Prop where
  /-- The cuts close up in all tags. -/
  close : Aria.TagsClose (scan text).dropped (scan text).tokens
  /-- What is left leaves no double quote open. -/
  closed : ¬ OpensQuote '"' (rewriteTags Aria.cleanTag (scan text).tokens ++ (scan text).dropped)

/-- Nothing is cut out of a plain text without invalid attributes. -/
theorem Plain.cuts_of_valid {text : List Char} (hPlain : Plain text) {document : Document}
    (hRead : Document.read text = .ok document) (hValid : Aria.TagsValid (scan text).tokens) :
    PlainCuts text := by
  obtain ⟨hScans, -⟩ := Document.scans_of_read hRead
  have hSource := hScans.tagsEnd.source_of_openTag
  constructor
  · rw [Aria.tagsClose_iff hScans.tagsEnd, Aria.map_cleanToken_eq_self hSource hValid]
    exact hScans.tagsEnd
  · rw [(Aria.rewriteTags_cleanTag hSource).2.2 hValid, hScans.join]
    exact hPlain.closed

/-- With labels in its tags, the cuts in a text are plain as before. -/
theorem PlainCuts.labelled {text : List Char} (hCuts : PlainCuts text) (hPlain : Plain text)
    {rule : Rule} (hRule : rule ∈ Rule.all) {document : Document}
    (hRead : Document.read text = .ok document) :
    PlainCuts (rewriteTags rule.labelTag (scan text).tokens ++ (scan text).dropped) := by
  obtain ⟨hScans, -⟩ := Document.scans_of_read hRead
  have hScan := hPlain.scan_labelled hRule hRead
  have hCleaned := (Aria.tagsClose_iff hScans.tagsEnd).1 hCuts.close
  constructor
  · rw [hScan, Aria.tagsClose_iff (scans_of_scanOnto hScan).tagsEnd]
    exact Rule.tagsEnd_cleaned_labelled hRule hScans.tagsEnd hCleaned hCuts.closed
  · rw [hScan]
    exact fun hOpens => hCuts.closed
      ((Rule.putInto_cleanTag hRule hScans.tagsEnd hCleaned).opensQuote
        (Rule.closedPiece_label hRule) hOpens)

end AccessibleMarkup
