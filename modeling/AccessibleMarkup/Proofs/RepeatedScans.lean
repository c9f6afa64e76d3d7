import AccessibleMarkup.Proofs.KeptLabels
import AccessibleMarkup.Proofs.NamelessInputs

/-! The search for inputs in a text that its own labels were put into. A label holds neither end of
a tag, so the search passes over the same characters and finds the same tags, each with its label.
All of them then carry the attribute, and there is nothing left to label. -/
namespace AccessibleMarkup

open AccessibleMarkup.Markup
open AccessibleMarkup.Text

namespace Rule

/-- What looks like the tag of an input, with the label right behind its name if it lacks it. -/
def labelledSource (rule : Rule) (source : List Char) : List Char :=
  if hasAttribute source rule.attributeName.toList then source
  else tagStart source ++ rule.label ++ source.drop (tagStart source).length

/-- Tags with their labels, each moved by the labels of the tags before it. The first is moved by
`shift`. -/
def labelledTags (rule : Rule) (shift : Nat) : List PlacedTag → List PlacedTag
  | [] => []
  | placed :: rest =>
    ⟨placed.start + shift, rule.labelledSource placed.source⟩ ::
      rule.labelledTags
        (if hasAttribute placed.source rule.attributeName.toList then shift
        else shift + rule.label.length) rest

/-- The edits that put in the labels that tags lack. -/
def missingEdits (rule : Rule) (found : List PlacedTag) : List Edit :=
  (found.filter fun placed => !hasAttribute placed.source rule.attributeName.toList).map
    rule.labelledEdit

/-- Every tag that lacks the label has a name to put it behind. -/
def TagsNamed (rule : Rule) (found : List PlacedTag) : Prop :=
  ∀ placed ∈ found, hasAttribute placed.source rule.attributeName.toList = false →
    tagStart placed.source ≠ []

end Rule

/-- A tag up to its first `>` has its name in front of the rest. -/
theorem Markup.exists_tagName {body : List Char} (hEnd : '>' ∉ body)
    (hStart : tagStart ('<' :: body ++ ['>']) ≠ []) :
    ∃ name left, body = name ++ left ∧ IsTagName name ∧ Stops continuesTagName (left ++ ['>']) ∧
      tagStart ('<' :: body ++ ['>']) = '<' :: name := by
  cases hRead : readTagName? (body ++ ['>']) with
  | none => simp [tagStart, hRead] at hStart
  | some read =>
      obtain ⟨name, rest⟩ := read
      obtain ⟨hJoin, hName, hStops⟩ := readTagName?_eq_some_iff.1 hRead
      have hNameEnd : '>' ∉ name := fun hMem => absurd (hName.continues '>' hMem) (by decide)
      obtain ⟨left, rfl, rfl⟩ := append_cons_eq_append hNameEnd hJoin
      refine ⟨name, left, rfl, hName, hStops, ?_⟩
      have hAgain : readTagName? (name ++ (left ++ ['>'])) = some (name, left ++ ['>']) :=
        readTagName?_eq_some_iff.2 ⟨rfl, hName, hStops⟩
      simp [tagStart, hAgain]

/-- Whether the tag of an input begins is seen before the next `<`. -/
theorem inputTagAfter?_isSome_of_front {text other : List Char}
    (hFront : ∀ piece left, '<' ∉ piece → other = piece ++ left → ∃ rest, text = piece ++ rest)
    (hEnd : '>' ∈ other → '>' ∈ text) (hSome : (inputTagAfter? other).isSome = true) :
    (inputTagAfter? text).isSome = true := by
  rw [inputTagAfter?_isSome_iff] at hSome ⊢
  obtain ⟨hClosed, read, c, later, rfl, hOpen, hBlank, hBehind, hWord⟩ := hSome
  have hC : c ≠ '<' := by
    rintro rfl
    exact absurd hBehind (by decide)
  obtain ⟨rest, rfl⟩ := hFront (read ++ [c]) later (by simp [hOpen, hC.symm]) (by simp)
  exact ⟨hEnd hClosed, read, c, rest, by simp, hOpen, hBlank, hBehind, hWord⟩

namespace FindsInputs

variable {rule : Rule} {offset : Nat} {found : List PlacedTag}

theorem fit_missingEdits {text : List Char} (hFinds : FindsInputs offset text found) :
    FitBetween offset (offset + text.length) (rule.missingEdits found) :=
  (hFinds.fit fun placed => tagStart placed.source ++ rule.label ++
    placed.source.drop (tagStart placed.source).length).sublist (List.filter_sublist.map _)

/-- A character where nothing begins is copied. -/
theorem spliced_pass {c : Char} {rest : List Char} (hTail : FindsInputs (offset + 1) rest found) :
    splicedFrom offset (c :: rest) (rule.missingEdits found) =
      c :: splicedFrom (offset + 1) rest (rule.missingEdits found) :=
  @splicedFrom_append offset _ [c] rest _ hTail.fit_missingEdits

/-- A tag that is found is copied with its label. -/
theorem spliced_tag {source behind : List Char}
    (hTail : FindsInputs (offset + source.length) behind found) :
    splicedFrom offset (source ++ behind) (rule.missingEdits (⟨offset, source⟩ :: found)) =
      rule.labelledSource source ++
        splicedFrom (offset + source.length) behind (rule.missingEdits found) := by
  unfold Rule.labelledSource
  split
  · rename_i hHas
    have hEdits : rule.missingEdits (⟨offset, source⟩ :: found) = rule.missingEdits found := by
      simp [Rule.missingEdits, hHas]
    rw [hEdits]
    exact splicedFrom_append hTail.fit_missingEdits
  · rename_i hNone
    have hEdits : rule.missingEdits (⟨offset, source⟩ :: found) =
        rule.labelledEdit ⟨offset, source⟩ :: rule.missingEdits found := by
      simp [Rule.missingEdits, hNone]
    rw [hEdits, splicedFrom]
    simp [Rule.labelledEdit, PlacedTag.stop]

end FindsInputs

namespace Rule

section
variable {rule : Rule} (hRule : rule ∈ all)
include hRule

/-- A tag with its label is a tag up to its first `>` and begins with the same name. What lacked the
label is cut behind the name. -/
theorem exists_labelledSource {body : List Char} (hEnd : '>' ∉ body)
    (hNamed : hasAttribute ('<' :: body ++ ['>']) rule.attributeName.toList = false →
      tagStart ('<' :: body ++ ['>']) ≠ []) :
    ∃ name label left, body = name ++ left ∧ '>' ∉ label ∧
      rule.labelledSource ('<' :: body ++ ['>']) = '<' :: (name ++ (label ++ left)) ++ ['>'] ∧
      (label = [] ∨ label = rule.label ∧ IsTagName name ∧ Stops continuesTagName (left ++ ['>'])) := by
  unfold labelledSource
  split
  · exact ⟨[], [], body, rfl, by simp, rfl, .inl rfl⟩
  · rename_i hNone
    obtain ⟨name, left, rfl, hName, hStops, hStart⟩ :=
      exists_tagName hEnd (hNamed (by simpa using hNone))
    refine ⟨name, rule.label, left, rfl, end_not_mem_label hRule, ?_, .inr ⟨rfl, hName, hStops⟩⟩
    have hDrop : ('<' :: (name ++ left) ++ ['>']).drop ('<' :: name).length = left ++ ['>'] := by
      simp
    rw [hStart, hDrop]
    simp

/-- A tag with its label still looks like the tag of an input. -/
theorem inputTagAfter?_labelledSource {body behind left : List Char}
    (hLooks : inputTagAfter? (body ++ '>' :: behind) = some ('<' :: body ++ ['>']))
    (hNamed : hasAttribute ('<' :: body ++ ['>']) rule.attributeName.toList = false →
      tagStart ('<' :: body ++ ['>']) ≠ []) :
    ∃ inner, rule.labelledSource ('<' :: body ++ ['>']) = '<' :: inner ++ ['>'] ∧
      inputTagAfter? (inner ++ '>' :: left) = some ('<' :: inner ++ ['>']) := by
  obtain ⟨-, read, c, later, hText, hOpen, hBlank, hBehind, hWord⟩ :=
    inputTagAfter?_isSome_iff.1 (Option.isSome_iff_exists.2 ⟨_, hLooks⟩)
  obtain ⟨other, -, hBody, hSame, hEnd⟩ := inputTagAfter?_eq_some hLooks
  obtain rfl : body = other := by simpa using hSame
  obtain ⟨name, label, rest, rfl, hLabelEnd, hSource, hLabel⟩ :=
    exists_labelledSource hRule hEnd hNamed
  refine ⟨_, hSource, inputTagAfter?_of_isSome ?_ (inputTagAfter?_isSome_iff.2 ⟨by simp, ?_⟩)⟩
  · simp only [List.mem_append, not_or] at hEnd ⊢
    exact ⟨hEnd.1, hLabelEnd, hEnd.2⟩
  · have hContinues := continues_of_inputWord hWord
    have hReadEnd : '>' ∉ read := fun hMem => absurd (hContinues '>' hMem) (by decide)
    obtain ⟨more, hJoin, hLater⟩ := append_cons_eq_append hReadEnd hText
    obtain ⟨d, tail, hNext, hD⟩ : ∃ d tail,
        name ++ (label ++ rest) ++ '>' :: left = read ++ d :: tail ∧
          (isBlank d || d = '/' || d = '>') = true := by
      rcases hLabel with rfl | ⟨rfl, hName, hStops⟩
      · cases more with
        | nil => exact ⟨'>', left, by simp [hJoin], rfl⟩
        | cons d more =>
            obtain rfl := (List.cons.inj hLater).1
            exact ⟨c, more ++ '>' :: left, by simp [hJoin], hBehind⟩
      · rcases List.append_eq_append_iff.1 hJoin with ⟨front, rfl, hRest⟩ | ⟨front, rfl, rfl⟩
        · cases front with
          | nil => exact ⟨' ', _, by simp [label_eq]; rfl, rfl⟩
          | cons d front =>
              rw [hRest, List.cons_append, List.cons_append, stops_cons,
                hContinues d (by simp)] at hStops
              cases hStops
        · cases front with
          | nil => exact ⟨' ', _, by simp [label_eq]; rfl, rfl⟩
          | cons d front =>
              obtain rfl := (List.cons.inj hLater).1
              exact ⟨c, front ++ (rule.label ++ rest) ++ '>' :: left, by simp, hBehind⟩
    exact ⟨read, d, tail, hNext, hOpen, hBlank, hD, hWord⟩

/-- A tag with its label carries the attribute. -/
theorem hasAttribute_labelledSource {body : List Char} (hEnd : '>' ∉ body)
    (hNamed : hasAttribute ('<' :: body ++ ['>']) rule.attributeName.toList = false →
      tagStart ('<' :: body ++ ['>']) ≠ []) :
    hasAttribute (rule.labelledSource ('<' :: body ++ ['>'])) rule.attributeName.toList = true := by
  by_cases hHas : hasAttribute ('<' :: body ++ ['>']) rule.attributeName.toList = true
  · rw [labelledSource, if_pos hHas, hHas]
  · obtain ⟨name, left, rfl, hName, hStops, hStart⟩ :=
      exists_tagName hEnd (hNamed (by simpa using hHas))
    have hSource : rule.labelledSource ('<' :: (name ++ left) ++ ['>']) =
        '<' :: name ++ (rule.label ++ left) ++ ['>'] := by
      rw [labelledSource, if_neg hHas, hStart]
      simp
    have hTagStart : tagStart ('<' :: name ++ (rule.label ++ left) ++ ['>']) = '<' :: name := by
      have hRead : readTagName? (name ++ (rule.label ++ (left ++ ['>']))) =
          some (name, rule.label ++ (left ++ ['>'])) :=
        readTagName?_eq_some_iff.2 ⟨rfl, hName, rfl⟩
      simp [tagStart, hRead]
    have hBehind : (withoutEnd ('<' :: name ++ (rule.label ++ left) ++ ['>'])).drop
        ('<' :: name).length = rule.label ++ left := by
      rw [withoutEnd, List.getLast?_concat, if_pos rfl, List.dropLast_concat, List.drop_left]
    obtain ⟨rest, hGap, written, hMem, hWritten⟩ := @carries_label [] (by simp) _ hRule left
    have hLast : lastOr '<' ('<' :: name ++ [' ']) = ' ' := by
      rw [lastOr, List.getLast?_concat, Option.getD_some]
    obtain ⟨placed, hPlaced, hPlacedName⟩ := mem_name_placedFrom _ hMem
    have hRead : attributesOf ('<' :: name ++ (rule.label ++ left) ++ ['>']) =
        placedFrom (('<' :: name).length + 1) (readAttributes ' ' rest).1 := by
      rw [labels, List.flatMap_nil, List.nil_append] at hGap
      simp only [attributesOf, hTagStart, hBehind, hGap, hLast, placeOnto_eq, List.reverse_nil,
        List.nil_append, List.length_singleton]
    rw [hSource, hasAttribute, hRead, List.any_eq_true]
    exact ⟨placed, hPlaced, by simp [hPlacedName, hWritten]⟩

end

/-- A tag gets longer by the label that it lacks. -/
theorem length_labelledSource (rule : Rule) (source : List Char) :
    (rule.labelledSource source).length = source.length +
      if hasAttribute source rule.attributeName.toList then 0 else rule.label.length := by
  unfold labelledSource
  split
  · rfl
  · have hStart := tagStart_prefix source
    have hEnd := withoutEnd_prefix source
    have hLength := (hStart.trans hEnd).length_le
    simp only [List.length_append, List.length_drop]
    omega

/-- The tags that are found have their labels in them. -/
theorem mem_labelledTags {rule : Rule} {found : List PlacedTag} {shift : Nat} {placed : PlacedTag}
    (hMem : placed ∈ rule.labelledTags shift found) :
    ∃ other ∈ found, placed.source = rule.labelledSource other.source := by
  induction found generalizing shift with
  | nil => simp [labelledTags] at hMem
  | cons first rest ih =>
      rcases List.mem_cons.1 hMem with rfl | hMem
      · exact ⟨first, List.mem_cons_self .., rfl⟩
      · obtain ⟨other, hOther, hSource⟩ := ih hMem
        exact ⟨other, List.mem_cons_of_mem _ hOther, hSource⟩

end Rule

namespace FindsInputs

variable {rule : Rule} (hRule : rule ∈ Rule.all) {offset : Nat} {text : List Char}
  {found : List PlacedTag}
include hRule

/-- Up to the first tag nothing is changed, and no end of a tag is put in. -/
theorem spliced_front (hFinds : FindsInputs offset text found) (hNamed : rule.TagsNamed found) :
    (∀ piece left, '<' ∉ piece →
        splicedFrom offset text (rule.missingEdits found) = piece ++ left →
        ∃ rest, text = piece ++ rest) ∧
      ('>' ∈ splicedFrom offset text (rule.missingEdits found) → '>' ∈ text) := by
  induction hFinds with
  | nil offset => exact ⟨fun piece left _ hJoin => ⟨left, hJoin⟩, id⟩
  | @pass offset c rest found none tail ih =>
      obtain ⟨hFront, hEnd⟩ := ih hNamed
      rw [tail.spliced_pass]
      refine ⟨fun piece left hOpen hJoin => ?_, fun hMem => ?_⟩
      · cases piece with
        | nil => exact ⟨c :: rest, rfl⟩
        | cons d piece =>
            obtain ⟨rfl, hTail⟩ := List.cons.inj hJoin
            obtain ⟨behind, rfl⟩ :=
              hFront piece left (fun hMem => hOpen (List.mem_cons_of_mem _ hMem)) hTail
            exact ⟨behind, rfl⟩
      · rcases List.mem_cons.1 hMem with rfl | hMem
        · exact List.mem_cons_self ..
        · exact List.mem_cons_of_mem _ (hEnd hMem)
  | @tag offset body behind found looks tail ih =>
      obtain ⟨inner, hSource, -⟩ := @Rule.inputTagAfter?_labelledSource _ hRule _ _ [] looks
        (hNamed _ (List.mem_cons_self ..))
      have hText : '<' :: (body ++ '>' :: behind) = ('<' :: body ++ ['>']) ++ behind := by simp
      refine ⟨fun piece left hOpen hJoin => ?_, fun _ => by simp⟩
      rw [hText, tail.spliced_tag, hSource] at hJoin
      cases piece with
      | nil => exact ⟨_, rfl⟩
      | cons d piece =>
          have hD : '<' = d := (List.cons.inj hJoin).1
          exact absurd (hD ▸ List.mem_cons_self ..) hOpen

/-- The search over the labelled text finds the same tags with their labels. -/
theorem labelled (hFinds : FindsInputs offset text found) (hNamed : rule.TagsNamed found)
    (shift : Nat) :
    FindsInputs (offset + shift) (splicedFrom offset text (rule.missingEdits found))
      (rule.labelledTags shift found) := by
  induction hFinds generalizing shift with
  | nil offset => exact .nil _
  | @pass offset c rest found none tail ih =>
      rw [tail.spliced_pass]
      have hTail := ih hNamed shift
      rw [Nat.add_right_comm] at hTail
      refine .pass (fun hOpen => ?_) hTail
      obtain ⟨hFront, hEnd⟩ := tail.spliced_front hRule hNamed
      rw [← Option.not_isSome_iff_eq_none]
      intro hSome
      have hOld := inputTagAfter?_isSome_of_front hFront hEnd hSome
      simp [none hOpen] at hOld
  | @tag offset body behind found looks tail ih =>
      have hText : '<' :: (body ++ '>' :: behind) = ('<' :: body ++ ['>']) ++ behind := by simp
      have hHere := hNamed ⟨offset, '<' :: body ++ ['>']⟩ (List.mem_cons_self ..)
      have hRest : rule.TagsNamed found := fun placed hMem =>
        hNamed placed (List.mem_cons_of_mem _ hMem)
      obtain ⟨inner, hSource, hLooks⟩ := @Rule.inputTagAfter?_labelledSource _ hRule _ _
        (splicedFrom (offset + ('<' :: body ++ ['>']).length) behind (rule.missingEdits found))
        looks hHere
      have hJoin (rest : List Char) :
          '<' :: inner ++ ['>'] ++ rest = '<' :: (inner ++ '>' :: rest) := by simp
      have hOffset : offset + shift + ('<' :: inner ++ ['>']).length =
          offset + ('<' :: body ++ ['>']).length +
            if hasAttribute ('<' :: body ++ ['>']) rule.attributeName.toList then shift
            else shift + rule.label.length := by
        rw [← hSource, Rule.length_labelledSource]
        split <;> omega
      rw [hText, tail.spliced_tag, Rule.labelledTags, hSource, hJoin]
      refine .tag hLooks ?_
      rw [hOffset]
      exact ih hRest _

end FindsInputs

namespace Rule

/-- A rule that finds nothing to label logs nothing either. -/
theorem apply_eq_of_settled {rule : Rule} {text : List Char} (hSettled : rule.Settled text) :
    rule.apply text = ⟨[], .ok text⟩ := by
  have hSplice : splice text [] = .ok text :=
    @splice_of_fitBetween text [] (Nat.zero_le _) (by simp)
  have hNone : rule.apply text = Logged.ofOutcome (failWith .malformed (splice text [])) := by
    rw [apply, edits_eq_nil_iff.2 hSettled]
    rfl
  rw [hNone, hSplice]
  rfl

/-- The rule for inputs copies the text and writes the missing labels. -/
theorem apply_inputs_eq_ok_iff {text labelled : List Char} :
    (inputs.apply text).outcome = .ok labelled ↔ inputs.TagsNamed (inputTags text) ∧
      labelled = splicedFrom 0 text (inputs.missingEdits (inputTags text)) := by
  constructor
  · intro hApply
    cases hEdits : inputEdits inputs text with
    | error failure =>
        have hAll : inputs.edits text = .error failure := hEdits
        rw [outcome_apply_of_error hAll] at hApply
        cases hApply
    | ok edits =>
        obtain ⟨hStarts, rfl⟩ := inputEdits_eq_ok_iff.1 hEdits
        obtain ⟨hFit, hPuts⟩ := inputEdits_fit (by decide) hEdits
        have hAll : inputs.edits text = .ok (inputs.missingEdits (inputTags text)) := hEdits
        rw [outcome_apply_of_edits hAll hFit hPuts, Except.ok.injEq] at hApply
        exact ⟨fun placed hMem hNone => hStarts placed (List.mem_filter.2 ⟨hMem, by simp [hNone]⟩),
          hApply.symm⟩
  · rintro ⟨hNamed, rfl⟩
    have hEdits : inputEdits inputs text = .ok (inputs.missingEdits (inputTags text)) := by
      refine inputEdits_eq_ok_iff.2 ⟨fun placed hMem => ?_, rfl⟩
      obtain ⟨hFound, hNone⟩ := List.mem_filter.1 hMem
      exact hNamed placed hFound (by simpa using hNone)
    obtain ⟨hFit, hPuts⟩ := inputEdits_fit (by decide) hEdits
    exact outcome_apply_of_edits hEdits hFit hPuts

/-- The tags that are found carry the attribute with their labels. -/
theorem hasAttribute_of_mem_labelledTags {rule : Rule} (hRule : rule ∈ all) {text : List Char}
    (hNamed : rule.TagsNamed (inputTags text)) {shift : Nat} {placed : PlacedTag}
    (hMem : placed ∈ rule.labelledTags shift (inputTags text)) :
    hasAttribute placed.source rule.attributeName.toList = true := by
  obtain ⟨other, hOther, hSource⟩ := mem_labelledTags hMem
  obtain ⟨front, rest, -, -, hLooks⟩ := exists_of_mem_inputTags hOther
  obtain ⟨body, behind, -, hBody, hEnd⟩ := inputTagAfter?_eq_some hLooks
  have hHere := hNamed other hOther
  rw [hBody] at hHere
  rw [hSource, hBody]
  exact hasAttribute_labelledSource hRule hEnd hHere

/-- Labelling the inputs of a text once is enough. The search over the labelled text finds the tags
that it found before, in the same order, each with its label behind its name if it had none and
moved by the labels in front of it; it finds no others. All of them carry the attribute, so the rule
leaves the text as it is from then on. -/
theorem inputs_stay_labelled {text labelled : List Char}
    (hApply : (inputs.apply text).outcome = .ok labelled) :
    inputTags labelled = inputs.labelledTags 0 (inputTags text) ∧
      (∀ placed ∈ inputTags labelled,
        hasAttribute placed.source inputs.attributeName.toList = true) ∧
      inputs.apply labelled = ⟨[], .ok labelled⟩ := by
  have hRule : inputs ∈ all := by decide
  obtain ⟨hNamed, rfl⟩ := apply_inputs_eq_ok_iff.1 hApply
  have hTags : inputTags (splicedFrom 0 text (inputs.missingEdits (inputTags text))) =
      inputs.labelledTags 0 (inputTags text) :=
    ((findsInputs_inputTagsOnto 0 text).labelled hRule hNamed 0).eq
  have hHas : ∀ placed ∈ inputTags (splicedFrom 0 text (inputs.missingEdits (inputTags text))),
      hasAttribute placed.source inputs.attributeName.toList = true := by
    rw [hTags]
    exact fun placed hMem => hasAttribute_of_mem_labelledTags hRule hNamed hMem
  exact ⟨hTags, hHas, apply_eq_of_settled hHas⟩

/-- A tag whose name runs on over white space, with the beginning of another in a value that is
never closed, and a tag in capitals that has its label. -/
theorem inputs_stay_labelled_in_open_value :
    (inputs.apply "<input\x0b<input a=\"><INPUT ARIA-LABEL/>".toList).outcome =
        .ok "<input\x0b<input aria-label=\"input\" a=\"><INPUT ARIA-LABEL/>".toList ∧
      inputTags "<input\x0b<input aria-label=\"input\" a=\"><INPUT ARIA-LABEL/>".toList =
        [⟨0, "<input\x0b<input aria-label=\"input\" a=\">".toList⟩,
          ⟨37, "<INPUT ARIA-LABEL/>".toList⟩] ∧
      inputs.apply "<input\x0b<input aria-label=\"input\" a=\"><INPUT ARIA-LABEL/>".toList =
        ⟨[], .ok "<input\x0b<input aria-label=\"input\" a=\"><INPUT ARIA-LABEL/>".toList⟩ := by
  have hApply : (inputs.apply "<input\x0b<input a=\"><INPUT ARIA-LABEL/>".toList).outcome =
      .ok "<input\x0b<input aria-label=\"input\" a=\"><INPUT ARIA-LABEL/>".toList :=
    eq_ok_of_toOption (by decide +kernel)
  obtain ⟨hTags, -, hAgain⟩ := inputs_stay_labelled hApply
  exact ⟨hApply, hTags.trans (by decide +kernel), hAgain⟩

end Rule

end AccessibleMarkup
