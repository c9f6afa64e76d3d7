import AccessibleMarkup.Proofs.LineEndsInPasses

/-! The search for the tags of inputs in a text with unified line ends. It finds the same tags with
unified line ends, though not at the same offsets, and the same of them lack a label. -/
namespace AccessibleMarkup

open AccessibleMarkup.Markup
open AccessibleMarkup.Text

/-- What looks like the tag of an input does so with unified line ends. -/
theorem inputTagAfter?_unifyLineEnds (text : List Char) :
    inputTagAfter? (unifyLineEnds text) = (inputTagAfter? text).map unifyLineEnds := by
  have hWord : IsOneLine "input".toList := by decide
  unfold inputTagAfter?
  rw [afterWord?_unifyLineEnds hWord, splitAtFirst?_unifyLineEnds (by decide) (by decide)]
  have hTag : ((splitAtFirst? '>' text).map (Prod.map unifyLineEnds unifyLineEnds)).map
      (fun read => '<' :: read.1 ++ ['>']) =
      ((splitAtFirst? '>' text).map fun read => '<' :: read.1 ++ ['>']).map unifyLineEnds := by
    rw [Option.map_map, Option.map_map]
    refine Option.map_congr fun read _ => ?_
    rw [Function.comp_apply, Function.comp_apply, unifyLineEnds_concat (by decide) (by decide),
      unifyLineEnds_cons (by decide)]
    rfl
  cases afterWord? "input".toList text with
  | none => rfl
  | some behind =>
      cases behind using unifyLineEnds_cases with
      | nil => rfl
      | turned rest left hLeft =>
          simp only [Option.map_some, hLeft]
          exact hTag
      | kept c rest hC =>
          simp only [Option.map_some, unifyLineEnds_cons hC]
          split
          · exact hTag
          · rfl

namespace Markup

theorem any_name_placedFrom (test : List Char → Bool) (offset : Nat)
    (attributes : List WrittenAttribute) :
    ((placedFrom offset attributes).any fun placed => test placed.name) =
      attributes.any fun written => test written.name := by
  induction attributes generalizing offset with
  | nil => rfl
  | cons written attributes ih => rw [placedFrom, List.any_cons, List.any_cons, ih]

/-- Whether a tag carries an attribute is told by the names that are read in it. -/
theorem hasAttribute_eq (openTag name : List Char) :
    hasAttribute openTag name =
      (readAttributes
        (lastOr '<' (tagStart openTag ++
          (splitGap ((withoutEnd openTag).drop (tagStart openTag).length)).1))
        (splitGap ((withoutEnd openTag).drop (tagStart openTag).length)).2).1.any
          fun written => lowercase written.name = lowercase name := by
  simp only [hasAttribute, attributesOf, placeOnto_eq, List.reverse_nil, List.nil_append]
  exact any_name_placedFrom (fun other => lowercase other = lowercase name) _ _

section
variable (body : List Char)

theorem unifyLineEnds_tag :
    unifyLineEnds ('<' :: body ++ ['>']) = '<' :: unifyLineEnds body ++ ['>'] := by
  rw [unifyLineEnds_concat (by decide) (by decide), unifyLineEnds_cons (by decide)]

theorem tagStart_unify :
    tagStart ('<' :: unifyLineEnds body ++ ['>']) = tagStart ('<' :: body ++ ['>']) := by
  have hBody : unifyLineEnds body ++ ['>'] = unifyLineEnds (body ++ ['>']) :=
    (unifyLineEnds_concat (by decide) (by decide) body).symm
  simp only [List.cons_append, tagStart, hBody, readTagName?_unifyLineEnds]
  cases readTagName? (body ++ ['>']) <;> rfl

theorem isOneLine_tagStart (text : List Char) : IsOneLine (tagStart text) := by
  unfold tagStart
  split
  · split
    · next name behind hName =>
        obtain ⟨-, hTagName, -⟩ := readTagName?_eq_some_iff.1 hName
        exact isOneLine_cons.2 ⟨by decide, by decide, isOneLine_of_isTagName hTagName⟩
    · decide
  · decide

theorem withoutEnd_concat (front : List Char) : withoutEnd (front ++ ['>']) = front := by
  rw [withoutEnd, List.getLast?_concat, if_pos rfl, List.dropLast_concat]

/-- What looks like a tag carries the same attributes with unified line ends. -/
theorem hasAttribute_unify (name : List Char) :
    hasAttribute ('<' :: unifyLineEnds body ++ ['>']) name =
      hasAttribute ('<' :: body ++ ['>']) name := by
  have hStart := isOneLine_tagStart ('<' :: body ++ ['>'])
  have hPrefix := tagStart_prefix ('<' :: body ++ ['>'])
  rw [hasAttribute_eq, hasAttribute_eq, tagStart_unify]
  rw [withoutEnd_concat] at hPrefix ⊢
  rw [withoutEnd_concat, ← unifyLineEnds_cons (by decide), drop_unifyLineEnds hStart hPrefix]
  generalize tagStart ('<' :: body ++ ['>']) = start at *
  generalize ('<' :: body).drop start.length = rest
  have hBefore : lastOr '<' (start ++ unifyLineEnds (splitGap rest).1) =
      asFeed (lastOr '<' (start ++ (splitGap rest).1)) := by
    rw [← unifyLineEnds_append_of_oneLine hStart]
    exact lastOr_unifyLineEnds '<' _
  rw [splitGap_unifyLineEnds, hBefore, readAttributes_unifyLineEnds, List.any_map]
  rfl

end

end Markup

/-- A tag gets its label whether its line ends are unified before or after. -/
theorem Rule.labelledSource_unify {rule : Rule} (hRule : rule ∈ all) (body : List Char) :
    rule.labelledSource ('<' :: unifyLineEnds body ++ ['>']) =
      unifyLineEnds (rule.labelledSource ('<' :: body ++ ['>'])) := by
  have hStart := isOneLine_tagStart ('<' :: body ++ ['>'])
  have hPrefix : tagStart ('<' :: body ++ ['>']) <+: '<' :: body ++ ['>'] :=
    tagStart_prefix _ |>.trans <| withoutEnd_prefix _
  unfold labelledSource
  rw [hasAttribute_unify, tagStart_unify, ← unifyLineEnds_tag]
  split
  · rfl
  · rw [drop_unifyLineEnds hStart hPrefix, unifyLineEnds_append_of_oneLine
      (isOneLine_append.2 ⟨hStart, isOneLine_label hRule⟩)]

namespace FindsInputs

section
variable {rule : Rule} (hRule : rule ∈ Rule.all) {offset : Nat} {text : List Char}
  {found : List PlacedTag}
include hRule

/-- Labelling leaves the first character. -/
theorem head?_spliced (hFinds : FindsInputs offset text found) (hNamed : rule.TagsNamed found) :
    (splicedFrom offset text (rule.missingEdits found)).head? = text.head? := by
  cases hFinds with
  | nil => rfl
  | pass none tail =>
      rw [tail.spliced_pass]
      rfl
  | @tag offset body behind found looks tail =>
      obtain ⟨inner, hSource, -⟩ := @Rule.inputTagAfter?_labelledSource _ hRule _ _ [] looks
        (hNamed _ (List.mem_cons_self ..))
      have hText : '<' :: (body ++ '>' :: behind) = ('<' :: body ++ ['>']) ++ behind := by simp
      rw [hText, tail.spliced_tag, hSource]
      rfl

/-- The search over the text with unified line ends finds the same tags. -/
theorem exists_unified (hFinds : FindsInputs offset text found) (hNamed : rule.TagsNamed found)
    (start : Nat) :
    ∃ again, FindsInputs start (unifyLineEnds text) again ∧ rule.TagsNamed again ∧
      splicedFrom start (unifyLineEnds text) (rule.missingEdits again) =
        unifyLineEnds (splicedFrom offset text (rule.missingEdits found)) := by
  induction hFinds generalizing start with
  | nil => exact ⟨[], .nil start, by simp [Rule.TagsNamed], rfl⟩
  | @pass offset c rest found none tail ih =>
      have hHead : feedNext (splicedFrom (offset + 1) rest (rule.missingEdits found)) =
          feedNext rest := by
        rw [feedNext, tail.head?_spliced hRule hNamed]
        rfl
      rw [tail.spliced_pass]
      by_cases hC : c = '\r'
      · subst hC
        cases hNext : feedNext rest with
        | true =>
            rw [unifyLineEnds_return_of_feed hNext,
              unifyLineEnds_return_of_feed (hHead.trans hNext)]
            exact ih hNamed start
        | false =>
            obtain ⟨again, hAgain, hStarts, hSpliced⟩ := ih hNamed (start + 1)
            rw [unifyLineEnds_return hNext, unifyLineEnds_return (hHead.trans hNext)]
            refine ⟨again, .pass (fun hOpen => absurd hOpen (by decide)) hAgain, hStarts, ?_⟩
            rw [hAgain.spliced_pass, hSpliced]
      · obtain ⟨again, hAgain, hStarts, hSpliced⟩ := ih hNamed (start + 1)
        rw [unifyLineEnds_cons hC, unifyLineEnds_cons hC]
        refine ⟨again, .pass (fun hOpen => ?_) hAgain, hStarts, ?_⟩
        · rw [inputTagAfter?_unifyLineEnds, none hOpen]
          rfl
        · rw [hAgain.spliced_pass, hSpliced]
  | @tag offset body behind found looks tail ih =>
      have hHere := hNamed ⟨offset, '<' :: body ++ ['>']⟩ (List.mem_cons_self ..)
      obtain ⟨again, hAgain, hStarts, hSpliced⟩ :=
        ih (fun placed hMem => hNamed placed (List.mem_cons_of_mem _ hMem))
          (start + ('<' :: unifyLineEnds body ++ ['>']).length)
      obtain ⟨inner, hSource, -⟩ := @Rule.inputTagAfter?_labelledSource _ hRule _ _ [] looks hHere
      have hText (body behind : List Char) :
          '<' :: (body ++ '>' :: behind) = ('<' :: body ++ ['>']) ++ behind := by simp
      have hLast (body : List Char) : ('<' :: body ++ ['>']).getLast? ≠ some '\r' := by
        rw [List.getLast?_concat]
        decide
      have hUnified : unifyLineEnds ('<' :: (body ++ '>' :: behind)) =
          '<' :: (unifyLineEnds body ++ '>' :: unifyLineEnds behind) := by
        rw [hText, hText, unifyLineEnds_append_of_getLast? (hLast body), unifyLineEnds_tag]
      have hLooks := inputTagAfter?_unifyLineEnds (body ++ '>' :: behind)
      rw [looks, Option.map_some, unifyLineEnds_tag] at hLooks
      rw [unifyLineEnds_cons (by decide), List.cons.injEq] at hUnified
      rw [hUnified.2] at hLooks
      refine ⟨⟨start, '<' :: unifyLineEnds body ++ ['>']⟩ :: again, ?_, ?_, ?_⟩
      · rw [unifyLineEnds_cons (by decide), hUnified.2]
        exact .tag hLooks hAgain
      · refine List.forall_mem_cons.2 ⟨?_, hStarts⟩
        rw [hasAttribute_unify, tagStart_unify]
        exact hHere
      · rw [unifyLineEnds_cons (by decide), hUnified.2, hText, hText, tail.spliced_tag,
          hAgain.spliced_tag, hSpliced, Rule.labelledSource_unify hRule,
          unifyLineEnds_append_of_getLast? (hSource ▸ hLast inner)]

end

end FindsInputs

/-- The rule for inputs labels the same ones. -/
theorem Rule.apply_unify_of_inputs {text labelled : List Char}
    (hApply : (inputs.apply text).outcome = .ok labelled) :
    (inputs.apply (unifyLineEnds text)).outcome = .ok (unifyLineEnds labelled) := by
  obtain ⟨hNamed, rfl⟩ := apply_inputs_eq_ok_iff.1 hApply
  obtain ⟨again, hAgain, hStarts, hSpliced⟩ :=
    (findsInputs_inputTagsOnto 0 text).exists_unified (by decide) hNamed 0
  have hTags : inputTags (unifyLineEnds text) = again := hAgain.eq
  rw [apply_inputs_eq_ok_iff, hTags]
  exact ⟨hStarts, hSpliced.symm⟩

end AccessibleMarkup
