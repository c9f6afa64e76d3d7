import AccessibleMarkup.Enhancement
import AccessibleMarkup.Proofs.Gate
import AccessibleMarkup.Proofs.InputSearch
import AccessibleMarkup.Proofs.Insertions

/-! What the rules do to a text. Whether they look for elements of the document or for tags of
inputs in the text, they put in labels and do nothing else, and every label makes the text longer.
-/
namespace AccessibleMarkup

open AccessibleMarkup.Markup
open AccessibleMarkup.Text

namespace Markup

/-- Edits that stand one behind the other are carried out as copying does. -/
theorem splice_of_fitBetween {text : List Char} {edits : List Edit}
    (hFit : FitBetween 0 text.length edits) (hEach : ∀ edit ∈ edits, edit.start < edit.stop) :
    splice text edits = .ok (splicedFrom 0 text edits) := by
  have hSort := mergeSort_eq_reverse Edit.start (List.Perm.refl _) (hFit.pairwise hEach).2
  rw [splice_eq, lastFirst, hSort, spliceInOrder_reverse hFit (Nat.le_refl _)]

end Markup

/-- The edit puts the label of the rule in behind the name of a tag that does not carry it. -/
def PutsLabel (rule : Rule) (text : List Char) (edit : Edit) : Prop :=
  ∃ front name source behind, text = front ++ (name ++ (source ++ behind)) ∧ name ≠ [] ∧
    (∀ c ∈ name, continuesTagName c = true) ∧ Stops continuesTagName (source ++ behind) ∧
    Unlabelled rule (source ++ behind) ∧
    edit = ⟨front.length, front.length + (name ++ source).length, name ++ (rule.label ++ source)⟩

/-- An edit that puts in a label replaces the name of the tag, which is not empty. -/
theorem PutsLabel.start_lt_stop {rule : Rule} {text : List Char} {edit : Edit}
    (hPuts : PutsLabel rule text edit) : edit.start < edit.stop := by
  obtain ⟨front, name, source, behind, -, hName, -, -, -, rfl⟩ := hPuts
  have hLength := List.length_pos_of_ne_nil hName
  simp only [List.length_append]
  omega

/-- Edits that put labels in are carried out. -/
theorem splice_of_putsLabel {rule : Rule} {text : List Char} {edits : List Edit}
    (hFit : FitBetween 0 text.length edits) (hPuts : ∀ edit ∈ edits, PutsLabel rule text edit) :
    splice text edits = .ok (splicedFrom 0 text edits) :=
  splice_of_fitBetween hFit fun edit hMem => (hPuts edit hMem).start_lt_stop

section
variable {rule : Rule} (hRule : rule ∈ Rule.all)
include hRule

/-- Edits that put labels in lead to a text with labels put in, one label for each edit. -/
theorem labelled_splicedFrom {text : List Char} {edits : List Edit} {offset : Nat}
    (hFit : FitBetween offset text.length edits) (hPuts : ∀ edit ∈ edits, PutsLabel rule text edit)
    (inName : Bool) :
    Labelled inName (text.drop offset) (splicedFrom offset (text.drop offset) edits) ∧
      (splicedFrom offset (text.drop offset) edits).length =
        (text.drop offset).length + edits.length * rule.label.length := by
  induction edits generalizing offset inName with
  | nil => exact ⟨.refl _ _, by simp [splicedFrom]⟩
  | cons edit rest ih =>
      obtain ⟨hStart, -, hRest⟩ := hFit
      obtain ⟨front, name, source, behind, hText, hName, hContinues, hStops, hLacks, rfl⟩ :=
        hPuts edit (List.mem_cons_self ..)
      simp only at hStart hRest
      have hTake : (text.drop offset).take (front.length - offset) = front.drop offset := by
        rw [hText, List.drop_append_of_le_length hStart, List.take_append_of_le_length (by simp),
          List.take_of_length_le (by simp)]
      have hBehind : text.drop (front.length + (name ++ source).length) = behind := by
        have hSplit : text = (front ++ (name ++ source)) ++ behind := by simp [hText]
        rw [hSplit, ← List.length_append, List.drop_left]
      have hDrop : (text.drop offset).drop (front.length + (name ++ source).length - offset) =
          behind := by
        rw [List.drop_drop, Nat.add_sub_cancel' (by omega), hBehind]
      have hFront : text.drop offset = front.drop offset ++ (name ++ (source ++ behind)) := by
        rw [hText, List.drop_append_of_le_length hStart]
      have hTail := ih hRest fun other hMem => hPuts other (List.mem_cons_of_mem _ hMem)
      rw [hBehind] at hTail
      rw [splicedFrom, hTake, hDrop, hFront]
      simp only [List.append_assoc]
      refine ⟨.append _ (.append _ ?_), ?_⟩
      · rw [inNameAfter_eq_true hName hContinues]
        exact .label hRule hStops hLacks (.append _ (hTail _).1)
      · have hLength := (hTail inName).2
        simp only [List.length_append, List.length_cons, Nat.add_mul] at hLength ⊢
        omega

/-- Edits that put in labels one behind the other make a text with one label more for each of them.
-/
theorem labelled_splice {text : List Char} {edits : List Edit}
    (hFit : FitBetween 0 text.length edits) (hPuts : ∀ edit ∈ edits, PutsLabel rule text edit) :
    ∃ labelled, splice text edits = .ok labelled ∧ Labelled false text labelled ∧
      labelled.length = text.length + edits.length * rule.label.length := by
  obtain ⟨hLabelled, hLength⟩ := labelled_splicedFrom hRule hFit hPuts false
  exact ⟨_, splice_of_putsLabel hFit hPuts, hLabelled, hLength⟩

end

/-- Where a piece without some character ends in a text that goes on with it. -/
theorem append_cons_eq_append {mark : Char} {front behind piece rest : List Char}
    (hPiece : mark ∉ piece) (hJoin : front ++ mark :: behind = piece ++ rest) :
    ∃ left, front = piece ++ left ∧ rest = left ++ mark :: behind := by
  rcases List.append_eq_append_iff.1 hJoin with ⟨left, hFront, hRest⟩ | ⟨left, hFront, hRest⟩
  · cases left with
    | nil => exact ⟨[], by simpa using hFront.symm, by simpa using hRest.symm⟩
    | cons c left =>
        have hC : mark = c := (List.cons.inj hRest).1
        simp [hFront, hC] at hPiece
  · exact ⟨left, hFront, hRest⟩

theorem Rule.end_not_mem_label {rule : Rule} (hRule : rule ∈ all) : '>' ∉ rule.label := by
  rw [label_eq]
  intro hMem
  rcases List.mem_cons.1 hMem with hBlank | hMem
  · simp at hBlank
  · exact absurd (continuesTagName_of_mem_labelBody hRule _ hMem) (by decide)

/-- Labels do not reach beyond the end of a tag. -/
theorem Unlabelled.append_end {rule : Rule} {text : List Char} (hLacks : Unlabelled rule text)
    (hRule : rule ∈ Rule.all) (behind : List Char) : Unlabelled rule (text ++ '>' :: behind) := by
  intro rules hRules rest hText
  rw [← List.append_assoc] at hText
  have hPiece : '>' ∉ Rule.labels rules ++ rule.label := by
    intro hMem
    rcases List.mem_append.1 hMem with hMem | hMem
    · obtain ⟨other, hOther, hMem⟩ := List.mem_flatMap.1 hMem
      exact Rule.end_not_mem_label (hRules other hOther) hMem
    · exact Rule.end_not_mem_label hRule hMem
  obtain ⟨left, rfl, -⟩ := append_cons_eq_append hPiece hText
  exact hLacks rules hRules left (by simp)

/-- Labels that follow the name of a tag are attributes of the tag. -/
theorem unlabelled_of_readAttributes {rule : Rule} (hRule : rule ∈ Rule.all)
    {name text gap left : List Char} (hGap : splitGap text = (gap, left))
    (hNone : ∀ written ∈ (readAttributes (lastOr '<' (name ++ gap)) left).1,
      written.name ≠ rule.attributeName.toList) : Unlabelled rule text := by
  intro rules hRules rest hText
  obtain ⟨found, hFound, written, hMem, hName⟩ := Rule.carries_label hRules hRule rest
  rw [← hText, hGap] at hFound
  obtain ⟨rfl, rfl⟩ := Prod.mk.inj hFound
  have hLast : lastOr '<' (name ++ [' ']) = ' ' := by simp [lastOr]
  rw [hLast] at hNone
  exact hNone written hMem hName

namespace Rule

/-- A rule that looks for elements puts labels in. -/
theorem putsLabel_labelled? {rule : Rule} (hRule : rule ∈ all) {text replacement : List Char}
    {opening : Opening} (hStands : opening.StandsIn text)
    (hChange : rule.labelled? opening.tag = some replacement) :
    PutsLabel rule text ⟨opening.placed.start, opening.placed.stop, replacement⟩ := by
  obtain ⟨behind, hText, hRead⟩ := hStands
  obtain ⟨-, hEnds⟩ := readOpenTag_eq_complete_iff.1 hRead
  unfold labelled? at hChange
  split at hChange
  · rename_i hSelects
    cases hChange
    have hNew := (Bool.and_eq_true _ _ ▸ hSelects).2
    refine ⟨opening.before, '<' :: opening.tag.name,
      opening.tag.gap ++ (opening.tag.attributeText ++ opening.tag.ending), behind, ?_, by simp, ?_,
      ?_, ?_, ?_⟩
    · simp [hText, OpenTag.source, OpenTag.sourceTail, OpenTag.attributeText]
    · intro c hMem
      rcases List.mem_cons.1 hMem with rfl | hMem
      · rfl
      · exact hEnds.name.continues c hMem
    · simpa using hEnds.nameStops
    · have hGap : splitGap (opening.tag.gap ++
          (opening.tag.attributeText ++ (opening.tag.ending ++ behind))) = _ := hEnds.gapStops
      simp only [List.append_assoc]
      have hAttributes : readAttributes (lastOr '<' (opening.tag.name ++ opening.tag.gap))
          (opening.tag.attributeText ++ (opening.tag.ending ++ behind)) = _ :=
        readAttributes_eq_iff.2 ⟨rfl, hEnds.attributes⟩
      refine @unlabelled_of_readAttributes _ hRule opening.tag.name _ _ _ hGap ?_
      rw [hAttributes]
      intro written hMem hName
      have hKnown : rule.attributeName ∈ opening.tag.readAttributes.map (·.name) := by
        refine Aria.mem_names_readAttributes.2 ⟨written, hMem, ?_⟩
        have hLabel := congrArg Attribute.name (read_labelAttribute hRule [])
        rw [hName]
        exact hLabel
      obtain ⟨known, hKnown, hName⟩ := List.mem_map.1 hKnown
      simp only [Bool.not_eq_true', List.any_eq_false, decide_eq_true_eq] at hNew
      exact hNew known hKnown hName
    · simp [Opening.placed, PlacedTag.stop, labelText, OpenTag.source, OpenTag.sourceTail,
        OpenTag.attributeText]
  · simp at hChange

def labelledEdit (rule : Rule) (placed : PlacedTag) : Edit :=
  ⟨placed.start, placed.stop,
    tagStart placed.source ++ rule.label ++ placed.source.drop (tagStart placed.source).length⟩

/-- A tag can be labelled exactly if it begins with a name. -/
theorem labelEdit_eq_ok_iff {rule : Rule} {placed : PlacedTag} {edit : Edit} :
    labelEdit rule placed = .ok edit ↔
      tagStart placed.source ≠ [] ∧ edit = rule.labelledEdit placed := by
  unfold labelEdit insertInto labelledEdit
  cases hStart : tagStart placed.source with
  | nil => simp [bind, Except.bind]
  | cons c name => simp [pure, Except.pure, eq_comm]

theorem mem_name_placedFrom {attributes : List WrittenAttribute} {written : WrittenAttribute}
    (offset : Nat) (hMem : written ∈ attributes) :
    ∃ placed ∈ placedFrom offset attributes, placed.name = written.name := by
  induction attributes generalizing offset with
  | nil => simp at hMem
  | cons first rest ih =>
      rcases List.mem_cons.1 hMem with rfl | hMem
      · exact ⟨_, List.mem_cons_self .., rfl⟩
      · obtain ⟨placed, hPlaced, hName⟩ := ih (offset + first.source.length) hMem
        exact ⟨placed, List.mem_cons_of_mem _ hPlaced, hName⟩

/-- The tag stands in the text at its place and ends at the first `>` in it. -/
def ClosesIn (text : List Char) (placed : PlacedTag) : Prop :=
  ∃ front body behind, text = front ++ (placed.source ++ behind) ∧
    placed.start = front.length ∧ placed.source = '<' :: body ++ ['>'] ∧ '>' ∉ body

/-- What looks like the tag of an input ends at its first `>`. -/
theorem closesIn_of_mem_inputTags {text : List Char} {placed : PlacedTag}
    (hMem : placed ∈ inputTags text) : ClosesIn text placed := by
  obtain ⟨front, rest, rfl, hStart, hTag⟩ := exists_of_mem_inputTags hMem
  obtain ⟨body, behind, rfl, hSource, hEnd⟩ := inputTagAfter?_eq_some hTag
  exact ⟨front, body, behind, by simp [hSource], hStart, hSource, hEnd⟩

/-- A rule that looks for the tags of inputs puts labels in. -/
theorem putsLabel_of_labelEdit {rule : Rule} (hRule : rule ∈ all) {text : List Char}
    {placed : PlacedTag} (hCloses : ClosesIn text placed)
    (hNew : hasAttribute placed.source rule.attributeName.toList = false) {edit : Edit}
    (hEdit : labelEdit rule placed = .ok edit) : PutsLabel rule text edit := by
  obtain ⟨front, body, behind, hText, hStart, hSource, hEnd⟩ := hCloses
  unfold labelEdit insertInto at hEdit
  cases hRead : readTagName? (body ++ ['>']) with
  | none =>
      have hNoStart : tagStart placed.source = [] := by simp [tagStart, hSource, hRead]
      simp [hNoStart, bind, Except.bind] at hEdit
  | some read =>
      obtain ⟨name, rest⟩ := read
      have hTagStart : tagStart placed.source = '<' :: name := by simp [tagStart, hSource, hRead]
      obtain ⟨hJoin, hName, hStops⟩ := readTagName?_eq_some_iff.1 hRead
      have hNameEnd : '>' ∉ name := fun hMem => absurd (hName.continues '>' hMem) (by decide)
      obtain ⟨left, rfl, rfl⟩ := append_cons_eq_append hNameEnd hJoin
      have hSplit : placed.source = '<' :: name ++ (left ++ ['>']) := by simp [hSource]
      rw [hTagStart, hSplit] at hEdit
      simp only [List.drop_left, ok_bind, pure, Except.pure, Except.ok.injEq] at hEdit
      subst hEdit
      have hLacks : Unlabelled rule left := by
        have hWithoutEnd : (withoutEnd placed.source).drop ('<' :: name).length = left := by
          have hWhole : placed.source = ('<' :: name ++ left) ++ ['>'] := by simp [hSource]
          rw [withoutEnd, hWhole, List.getLast?_concat, if_pos rfl, List.dropLast_concat,
            List.drop_left]
        rcases hGap : splitGap left with ⟨gap, following⟩
        refine @unlabelled_of_readAttributes _ hRule ('<' :: name) _ _ _ hGap ?_
        intro written hMem hWritten
        simp only [hasAttribute, attributesOf, hTagStart, hWithoutEnd, hGap, placeOnto_eq,
          List.reverse_nil, List.nil_append, List.any_eq_false, decide_eq_true_eq] at hNew
        obtain ⟨other, hOther, hOtherName⟩ := mem_name_placedFrom _ hMem
        exact hNew other hOther (by rw [hOtherName, hWritten])
      refine ⟨front, '<' :: name, left ++ ['>'], behind, ?_, by simp, ?_, ?_, ?_, ?_⟩
      · simp [hText, hSource]
      · intro c hMem
        rcases List.mem_cons.1 hMem with rfl | hMem
        · rfl
        · exact hName.continues c hMem
      · exact hStops.append (by simp) behind
      · simpa using hLacks.append_end hRule behind
      · simp [hStart, PlacedTag.stop, hSource]

end Rule

/-- Work on every item of a list goes through where it does on each item. -/
theorem mapM_eq_ok_iff {α β ε : Type} {work : α → Except ε β} {can : α → Prop} {value : α → β}
    (hWork : ∀ item found, work item = .ok found ↔ can item ∧ found = value item) {list : List α}
    {all : List β} :
    list.mapM work = .ok all ↔ (∀ item ∈ list, can item) ∧ all = list.map value := by
  induction list generalizing all with
  | nil => simp [pure, Except.pure, eq_comm]
  | cons item rest ih =>
      rw [List.mapM_cons, bind_eq_ok_iff]
      simp only [bind_eq_ok_iff, hWork, ih, pure, Except.pure, Except.ok.injEq, List.forall_mem_cons,
        List.map_cons]
      constructor
      · rintro ⟨_, ⟨hItem, rfl⟩, _, ⟨hRest, rfl⟩, rfl⟩
        exact ⟨⟨hItem, hRest⟩, rfl⟩
      · rintro ⟨⟨hItem, hRest⟩, rfl⟩
        exact ⟨_, ⟨hItem, rfl⟩, _, ⟨hRest, rfl⟩, rfl⟩

/-- What looks like the tag of an input in the text and lacks the attribute of the rule. -/
def Rule.unlabelledInputTags (rule : Rule) (text : List Char) : List PlacedTag :=
  (inputTags text).filter fun placed => !hasAttribute placed.source rule.attributeName.toList

/-- Inputs can be labelled exactly if all those that lack the attribute have names. -/
theorem Rule.inputEdits_eq_ok_iff {rule : Rule} {text : List Char} {edits : List Edit} :
    inputEdits rule text = .ok edits ↔
      (∀ placed ∈ rule.unlabelledInputTags text, tagStart placed.source ≠ []) ∧
        edits = (rule.unlabelledInputTags text).map rule.labelledEdit :=
  mapM_eq_ok_iff fun _ _ => labelEdit_eq_ok_iff

namespace Rule

section
variable {rule : Rule} (hRule : rule ∈ all)
include hRule

/-- The edits of a rule that looks for elements stand one behind the other and put labels in. -/
theorem elementEdits_fit {text : List Char} {edits : List Edit}
    (hEdits : elementEdits rule text = .ok edits) :
    FitBetween 0 text.length edits ∧ ∀ edit ∈ edits, PutsLabel rule text edit := by
  cases hRead : Document.read text with
  | error fault =>
      simp [elementEdits, Aria.readDocument, hRead, failWith, bind, Except.bind] at hEdits
  | ok document =>
      obtain ⟨hSource, hStand, -, hJoin⟩ := readable_of_read hRead
      rw [rule.elementEdits_of_read hRead, Except.ok.injEq] at hEdits
      subst hEdits
      refine ⟨fitBetween_edits hSource rule.labelled? [] ?_, ?_⟩
      · have hLength := congrArg List.length hJoin
        simp only [List.length_append, List.length_nil] at hLength ⊢
        omega
      · intro edit hMem
        obtain ⟨opening, hOpening, hEdit⟩ := List.mem_filterMap.1 hMem
        obtain ⟨replacement, hChange, rfl⟩ := Option.map_eq_some_iff.1 hEdit
        exact putsLabel_labelled? hRule (hStand opening hOpening) hChange

/-- The edits of the rule for inputs stand one behind the other and put labels in. -/
theorem inputEdits_fit {text : List Char} {edits : List Edit}
    (hEdits : inputEdits rule text = .ok edits) :
    FitBetween 0 text.length edits ∧ ∀ edit ∈ edits, PutsLabel rule text edit := by
  obtain ⟨hStarts, rfl⟩ := inputEdits_eq_ok_iff.1 hEdits
  have hFit := (findsInputs_inputTagsOnto 0 text).fit fun placed =>
    tagStart placed.source ++ rule.label ++ placed.source.drop (tagStart placed.source).length
  rw [Nat.zero_add] at hFit
  refine ⟨hFit.sublist (List.filter_sublist.map _), ?_⟩
  intro edit hMem
  obtain ⟨placed, hPlaced, rfl⟩ := List.mem_map.1 hMem
  obtain ⟨hFound, hNew⟩ := List.mem_filter.1 hPlaced
  exact putsLabel_of_labelEdit hRule (closesIn_of_mem_inputTags hFound) (by simpa using hNew)
    (labelEdit_eq_ok_iff.2 ⟨hStarts placed hPlaced, rfl⟩)

/-- The edits of a rule put labels in, one behind the other. -/
theorem edits_fit {text : List Char} {edits : List Edit} (hEdits : rule.edits text = .ok edits) :
    FitBetween 0 text.length edits ∧ ∀ edit ∈ edits, PutsLabel rule text edit := by
  unfold Rule.edits at hEdits
  split at hEdits
  · exact elementEdits_fit hRule hEdits
  · exact inputEdits_fit hRule hEdits

/-- A rule puts labels into a text, as many as it has edits. -/
theorem labelled_apply {text labelled : List Char}
    (hApply : (rule.apply text).outcome = .ok labelled) :
    ∃ edits, rule.edits text = .ok edits ∧ Labelled false text labelled ∧
      labelled.length = text.length + edits.length * rule.label.length := by
  cases hEdits : rule.edits text with
  | error fault =>
      simp only [apply, hEdits, Logged.outcome_bind, Logged.outcome_ofOutcome] at hApply
      cases hApply
  | ok edits =>
      obtain ⟨hFit, hPuts⟩ := edits_fit hRule hEdits
      obtain ⟨spliced, hSplice, hLabelled, hLength⟩ := labelled_splice hRule hFit hPuts
      have hSame : spliced = labelled := by
        simp only [apply, hEdits, Logged.outcome_bind, Logged.outcome_ofOutcome, ok_bind] at hApply
        split at hApply <;> simpa [hSplice] using hApply
      subst hSame
      exact ⟨edits, rfl, hLabelled, hLength⟩

end

end Rule

/-- The rules put labels into a text. They leave it as it is only where none of them finds a tag to
label. -/
theorem labelled_addLabels {rules : List Rule} (hRules : ∀ rule ∈ rules, rule ∈ Rule.all)
    {text labelled : List Char} (hAdd : (addLabels rules text).outcome = .ok labelled) :
    Labelled false text labelled ∧ text.length ≤ labelled.length ∧
      (labelled.length ≤ text.length → ∀ rule ∈ rules, rule.edits text = .ok []) := by
  induction rules generalizing text with
  | nil =>
      cases hAdd
      exact ⟨.refl _ _, Nat.le_refl _, by simp⟩
  | cons rule rest ih =>
      have hRule := hRules rule (List.mem_cons_self ..)
      rw [addLabels, List.foldlM_cons, Logged.outcome_bind] at hAdd
      cases hApply : (rule.apply text).outcome with
      | error fault => simp [hApply, bind, Except.bind] at hAdd
      | ok middle =>
          rw [hApply] at hAdd
          obtain ⟨hLater, hGrows, hNone⟩ :=
            ih (fun other hMem => hRules other (List.mem_cons_of_mem _ hMem)) hAdd
          obtain ⟨edits, hEdits, hFirst, hLength⟩ := Rule.labelled_apply hRule hApply
          refine ⟨hFirst.trans hLater, by omega, fun hShort => ?_⟩
          have hSame : middle = text := hFirst.eq_of_length_le (by omega)
          subst hSame
          have hNoEdits : edits = [] := by
            have hLabel : rule.label.length ≠ 0 := by simp [Rule.label_eq]
            have hNothing : edits.length * rule.label.length = 0 := by omega
            exact List.length_eq_zero_iff.1 ((Nat.mul_eq_zero.1 hNothing).resolve_right hLabel)
          intro other hMem
          rcases List.mem_cons.1 hMem with rfl | hMem
          · rw [hEdits, hNoEdits]
          · exact hNone hShort other hMem

end AccessibleMarkup
