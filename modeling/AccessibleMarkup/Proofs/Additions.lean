import AccessibleMarkup.Proofs.NameRuns
import AccessibleMarkup.Proofs.Pieces
import AccessibleMarkup.Proofs.PlainTexts

/-! What the rules add to a text. They work one after the other, each on the text with the labels of
those before it, and still the outcome is the text itself with labels between its characters: every
label stands directly behind the name of a tag, one for each tag that its rule finds. -/
namespace AccessibleMarkup

open AccessibleMarkup.Markup
open AccessibleMarkup.Text

/-- No opening tag of a document begins in what could be the name of a tag. -/
theorem Markup.not_isTagName_before {text : List Char} {document : Document}
    (hRead : Document.read text = .ok document) :
    ∀ opening ∈ openings [] (scan text).tokens, ∀ front name,
      opening.before = front ++ '<' :: name → ¬IsTagName name := by
  refine (Document.scans_of_read hRead).1.not_isTagName ?_
  rintro - ⟨front, name, c, rest, hNone, -⟩
  simp at hNone

/-- A text that begins a tag does so with `<` and a name of a tag. -/
theorem Markup.tagStart_eq {source : List Char} (hStart : tagStart source ≠ []) :
    ∃ name, tagStart source = '<' :: name ∧ IsTagName name := by
  unfold tagStart at hStart ⊢
  split
  · rename_i rest
    cases hRead : readTagName? rest with
    | none => simp [hRead] at hStart
    | some read => exact ⟨read.1, rfl, (readTagName?_eq_some_iff.1 hRead).2.1⟩
  · rename_i hOther
    simp at hStart

namespace Rule

/-- The tags that a rule labels: those of the elements that it selects in the document, or what
looks like the tag of an input in the text and lacks its attribute. -/
def targets (rule : Rule) (text : List Char) : Except Failure (List PlacedTag) :=
  match rule.finder with
  | .elements => do
    let document ← Aria.readDocument text
    (document.elements.filter rule.selects).mapM fun element =>
      failWith .ofLocationFault (locate (Buffer.ofText text) element)
  | .inputTags => .ok (rule.unlabelledInputTags text)

/-- A rule that looks for elements labels the tags that it selects, where they stand. -/
theorem targets_of_read {rule : Rule} (hFinder : rule.finder = .elements) {text : List Char}
    {document : Document} (hRead : Document.read text = .ok document) :
    rule.targets text = .ok ((rule.selectedOpenings text).map Opening.placed) := by
  obtain ⟨-, hStand, hElements, -⟩ := readable_of_read hRead
  have hFilter : document.elements.filter rule.selects =
      (rule.selectedOpenings text).map Opening.element := by
    rw [hElements, List.filter_map]
    rfl
  have hLocate : ∀ opening ∈ rule.selectedOpenings text,
      failWith .ofLocationFault (locate (Buffer.ofText text) opening.element) =
        .ok opening.placed := fun opening hMem => by
    rw [locate_opening (hStand opening (List.mem_filter.1 hMem).1), failWith_ok]
  simp only [targets, hFinder, Aria.readDocument, hRead, failWith_ok, ok_bind, hFilter]
  exact mapM_map_eq_ok Opening.element
    (fun element => failWith .ofLocationFault (locate (Buffer.ofText text) element)) Opening.placed
    hLocate

/-- A tag that a rule labels, with the text in front of it, its name, and the text behind the name.
The name is that of no other rule, and if the rule looks for elements, nothing that ends where the
name does could be another name. -/
structure LabelsAt (rule : Rule) (text : List Char) (placed : PlacedTag)
    (front name behind : List Char) : Prop where
  text_eq : text = front ++ '<' :: (name ++ behind)
  start : placed.start = front.length
  place : labelPlace placed = front.length + (name.length + 1)
  within : labelPlace placed ≤ placed.stop
  isName : IsTagName name
  stops : Stops continuesTagName behind
  apart : ∀ other ∈ all, String.ofList (lowercase name) = other.tag → other = rule
  own : rule.finder = .elements → ∀ before run, front ++ '<' :: name = before ++ '<' :: run →
    IsTagName run → String.ofList (lowercase run) = rule.tag

section
variable {rule : Rule} (hRule : rule ∈ all) {text : List Char} {placed : PlacedTag}
  (hPuts : PutsLabel rule text (rule.labelledEdit placed))
include hPuts

/-- The name of a tag that is labelled. -/
theorem name_of_putsLabel (hStart : tagStart placed.source ≠ []) :
    ∃ front name behind, text = front ++ '<' :: (name ++ behind) ∧ placed.start = front.length ∧
      labelPlace placed = front.length + (name.length + 1) ∧ labelPlace placed ≤ placed.stop ∧
      tagStart placed.source = '<' :: name ∧ IsTagName name ∧ Stops continuesTagName behind := by
  obtain ⟨front, name, source, behind, hText, hFront, hPlace, hEdit, hName, hStops, -⟩ :=
    place_of_putsLabel hPuts
  obtain ⟨run, hRun, hIsName⟩ := tagStart_eq hStart
  obtain rfl := hName.symm.trans hRun
  have hStop : placed.stop = front.length + (('<' :: run) ++ source).length :=
    congrArg Edit.stop hEdit
  refine ⟨front, run, source ++ behind, by simp [hText], hFront, ?_, ?_, hRun, hIsName, hStops⟩
  · rw [hPlace, List.length_append, List.length_cons]
  · rw [hPlace, hStop]
    simp only [List.length_append]
    omega

include hRule

/-- The tag of a selected element is labelled behind its name. Nothing that ends there could be
another name: it would begin with a `<`, and the name holds no further one. -/
theorem labelsAt_of_opening {document : Document} (hRead : Document.read text = .ok document)
    {opening : Opening} (hMem : opening ∈ rule.selectedOpenings text)
    (hPlaced : placed = opening.placed) :
    ∃ front name behind, rule.LabelsAt text placed front name behind := by
  obtain ⟨hOpening, hSelects⟩ := List.mem_filter.1 hMem
  obtain ⟨-, hStand, -, -⟩ := readable_of_read hRead
  obtain ⟨left, hText, hTag⟩ := hStand opening hOpening
  have hTagStart : tagStart placed.source = '<' :: opening.tag.name := by
    rw [hPlaced]
    exact tagStart_source (readOpenTag_eq_complete_iff.1 hTag).2
  obtain ⟨front, name, behind, hJoin, hStart, hPlace, hWithin, hName, hIsName, hStops⟩ :=
    name_of_putsLabel hPuts (by rw [hTagStart]; simp)
  obtain rfl : opening.tag.name = name := (List.cons.inj (hTagStart.symm.trans hName)).2
  have hOwnName : String.ofList (lowercase opening.tag.name) = rule.tag :=
    (selectsTag_iff.1 hSelects).1
  obtain rfl : opening.before = front := by
    have hLength : opening.before.length = front.length := by
      rw [← hStart, hPlaced]
      rfl
    rw [hText, List.append_assoc] at hJoin
    exact (List.append_inj hJoin hLength).1
  refine ⟨opening.before, opening.tag.name, behind, hJoin, hStart, hPlace, hWithin, hIsName, hStops,
    fun other hOther hSame => eq_of_tag_eq hOther hRule (hSame.symm.trans hOwnName), ?_⟩
  intro _ before run hRun hIsRun
  rcases List.append_eq_append_iff.1 hRun with ⟨more, -, hMore⟩ | ⟨more, hBefore, hMore⟩
  · cases more with
    | nil => rw [← (List.cons.inj hMore).2, hOwnName]
    | cons c more =>
        have hOpen := open_not_mem_name hRule hOwnName
        rw [(List.cons.inj hMore).2] at hOpen
        simp at hOpen
  · cases more with
    | nil => rw [(List.cons.inj hMore).2, hOwnName]
    | cons c more =>
        obtain ⟨rfl, rfl⟩ := List.cons.inj hMore
        refine absurd (hIsRun.of_prefix (List.prefix_append _ _) ?_)
          (not_isTagName_before hRead opening hOpening before more hBefore)
        rintro rfl
        exact absurd hIsRun.1 (by decide)

/-- What looks like the tag of an input is labelled behind the name that it begins with. -/
theorem labelsAt_of_inputTag (hFinder : rule.finder = .inputTags) (hMem : placed ∈ inputTags text)
    (hStart : tagStart placed.source ≠ []) :
    ∃ front name behind, rule.LabelsAt text placed front name behind := by
  obtain ⟨front, name, behind, hJoin, hFront, hPlace, hWithin, -, hIsName, hStops⟩ :=
    name_of_putsLabel hPuts hStart
  refine ⟨front, name, behind, hJoin, hFront, hPlace, hWithin, hIsName, hStops, ?_, ?_⟩
  · intro other hOther hName
    obtain ⟨before, rest, hText, hBefore, hTag⟩ := exists_of_mem_inputTags hMem
    have hRest : rest = name ++ behind := by
      rw [hJoin] at hText
      have hLength : front.length = before.length := by rw [← hFront, hBefore]
      exact (List.cons.inj (List.append_inj hText hLength).2).2.symm
    have hInputs : ∀ rule ∈ all, rule.finder = .inputTags → rule = inputs := by decide
    rw [hInputs rule hRule hFinder]
    obtain ⟨-, read, c, later, hRead, -, -, -, hAgain⟩ :=
      inputTagAfter?_isSome_iff.1 (Option.isSome_iff_exists.2 ⟨_, hTag⟩)
    have hWord : afterWord? "input".toList (name ++ behind) = some (c :: later) := by
      rw [← hRest, hRead]
      exact hAgain _
    exact eq_inputs_of_afterWord? hOther hName hWord
  · intro hElements
    rw [hFinder] at hElements
    cases hElements

end

/-- A rule puts its label in behind the name of every tag that it looks for. -/
theorem exists_targets {rule : Rule} (hRule : rule ∈ all) {text labelled : List Char}
    (hApply : (rule.apply text).outcome = .ok labelled) :
    ∃ tags, rule.targets text = .ok tags ∧
      labelled =
        splicedFrom 0 text (tags.map fun placed => putEdit rule.label (labelPlace placed)) ∧
      FitBetween 0 text.length (tags.map rule.labelledEdit) ∧
      ∀ placed ∈ tags, ∃ front name behind, rule.LabelsAt text placed front name behind := by
  obtain ⟨edits, hEdits, -, -⟩ := labelled_apply hRule hApply
  obtain ⟨hFit, hPuts⟩ := edits_fit hRule hEdits
  rw [outcome_apply_of_edits hEdits hFit hPuts, Except.ok.injEq] at hApply
  have hSpliced {tags : List PlacedTag} (hTags : edits = tags.map rule.labelledEdit) :
      labelled =
        splicedFrom 0 text (tags.map fun placed => putEdit rule.label (labelPlace placed)) := by
    subst hTags
    rw [← hApply]
    exact @splicedFrom_labelledEdit _ _ _ (fun placed hMem => hPuts _ (List.mem_map_of_mem hMem)) 0
      hFit
  cases hFinder : rule.finder with
  | elements =>
      simp only [Rule.edits, hFinder] at hEdits
      cases hRead : Document.read text with
      | error fault =>
          simp [elementEdits, Aria.readDocument, hRead, failWith, bind, Except.bind] at hEdits
      | ok document =>
          rw [rule.elementEdits_eq_selected hRead, Except.ok.injEq] at hEdits
          subst hEdits
          refine ⟨_, targets_of_read hFinder hRead, hSpliced rfl, hFit, fun placed hMem => ?_⟩
          obtain ⟨opening, hOpening, hPlaced⟩ := List.mem_map.1 hMem
          exact labelsAt_of_opening hRule (hPuts _ (List.mem_map_of_mem hMem)) hRead hOpening
            hPlaced.symm
  | inputTags =>
      simp only [Rule.edits, hFinder] at hEdits
      obtain ⟨hStarts, rfl⟩ := inputEdits_eq_ok_iff.1 hEdits
      refine ⟨_, by simp only [targets, hFinder], hSpliced rfl, hFit, fun placed hMem => ?_⟩
      exact labelsAt_of_inputTag hRule (hPuts _ (List.mem_map_of_mem hMem)) hFinder
        (List.mem_filter.1 hMem).1 (hStarts placed hMem)

section
variable {earlier : List Rule} {rule : Rule} {text : List Char}
  (hEarlier : ∀ other ∈ earlier, other ∈ all ∧ other.finder = .elements ∧ other ≠ rule)
include hEarlier

theorem not_mem_earlier : rule ∉ earlier := fun hMem => (hEarlier rule hMem).2.2 rfl

/-- One more label stands among the pieces: nothing but characters make up the name before it, and
no label of another rule stands at its place. -/
theorem exists_place {placed : PlacedTag} {front name behind : List Char}
    (hLabels : rule.LabelsAt text placed front name behind) {done rest : List Piece}
    (hText : withLabels earlier (done ++ rest) = text)
    (hStand : LabelsStand (earlier ++ [rule]) (done ++ rest))
    (hRest : ∀ other, .label other ∈ rest → other ∈ earlier)
    (hStart : (withLabels earlier done).length ≤ placed.start) :
    ∃ before later, rest = before ++ later ∧
      (withLabels earlier (done ++ before)).length = labelPlace placed ∧
      LabelsStand (earlier ++ [rule]) (done ++ before ++ .label rule :: later) := by
  obtain ⟨hJoin, hFront, hPlace, -, hName, hStops, hApart, hOwn⟩ := hLabels
  rw [hFront] at hStart
  rw [withLabels_append, hJoin] at hText
  obtain ⟨left, rfl, hLeft⟩ : ∃ left, front = withLabels earlier done ++ left ∧
      withLabels earlier rest = left ++ '<' :: (name ++ behind) := by
    rcases List.append_eq_append_iff.1 hText with ⟨left, hFront, hRest⟩ | ⟨left, hDone, hRest⟩
    · exact ⟨left, hFront, hRest⟩
    · rw [hDone, List.length_append] at hStart
      obtain rfl : left = [] := List.length_eq_zero_iff.1 (by omega)
      exact ⟨[], by simpa using hDone.symm, by simpa using hRest.symm⟩
  have hBlank : ' ' ∉ name := fun hMem => absurd (hName.continues ' ' hMem) (by decide)
  obtain ⟨before, later, rfl, rfl, rfl⟩ :=
    exists_pieces_of_tag (fun other hMem => (hEarlier other hMem).1) hRest hBlank hLeft
  have hFree : ∀ other, Piece.label other ∉ later.head? := by
    intro other hHead
    obtain ⟨after, rfl⟩ := List.head?_eq_some_iff.1 hHead
    have hMem := hRest other (by simp)
    obtain ⟨-, -, hTag⟩ := hStand (done ++ (before ++ ('<' :: name).map .char)) other after
      (by simp)
    have hSame := hTag (hEarlier other hMem).2.1 (done ++ before) name (by simp) hName
    exact (hEarlier other hMem).2.2 (hApart other (hEarlier other hMem).1 hSame)
  refine ⟨before ++ ('<' :: name).map .char, later, by simp, ?_, ?_⟩
  · rw [hPlace]
    simp [Nat.add_assoc]
  · refine LabelsStand.put (by simpa using hStand) (by simp) ⟨done ++ before, name, by simp, ?_⟩ ?_
      hFree
    · refine readTagName?_eq_some_iff.2 ⟨rfl, hName, ?_⟩
      cases later with
      | nil => trivial
      | cons piece later =>
          cases piece with
          | char c => exact hStops
          | label other => exact absurd rfl (hFree other)
    · intro hFinder start run hRun hIsRun
      refine hOwn hFinder (withLabels earlier start) run ?_ hIsRun
      have hWritten := congrArg (withLabels earlier) hRun
      simpa using hWritten

/-- All labels of one more rule stand among the pieces. They are put in from the first to the last;
the pieces in front are done, and none of those behind has changed. -/
theorem exists_places {tags : List PlacedTag}
    (hLabels : ∀ placed ∈ tags, ∃ front name behind, rule.LabelsAt text placed front name behind)
    {done rest : List Piece} (hText : withLabels earlier (done ++ rest) = text)
    (hStand : LabelsStand (earlier ++ [rule]) (done ++ rest))
    (hRest : ∀ other, .label other ∈ rest → other ∈ earlier)
    (hFit : FitBetween (withLabels earlier done).length text.length (tags.map rule.labelledEdit)) :
    ∃ pieces, LabelsStand (earlier ++ [rule]) (done ++ pieces) ∧ withoutLabels rule pieces = rest ∧
      withLabels (earlier ++ [rule]) pieces =
        splicedFrom (withLabels earlier done).length (withLabels earlier rest)
          (tags.map fun placed => putEdit rule.label (labelPlace placed)) ∧
      labelPlaces earlier rule (withLabels earlier done).length pieces = tags.map labelPlace := by
  have hNew := not_mem_earlier hEarlier
  have hSame {pieces : List Piece} (hPieces : ∀ other, .label other ∈ pieces → other ∈ earlier) :
      withoutLabels rule pieces = pieces ∧
        withLabels (earlier ++ [rule]) pieces = withLabels earlier pieces ∧
        ∀ offset, labelPlaces earlier rule offset pieces = [] := by
    have hNone : .label rule ∉ pieces := fun hMem => hNew (hPieces rule hMem)
    refine ⟨List.filter_eq_self.2 fun piece hMem => ?_, withLabels_congr fun other hMem => ?_,
      labelPlaces_eq_nil hNone⟩
    · rw [decide_eq_true_eq]
      rintro rfl
      exact hNone hMem
    · simp [hPieces other hMem]
  induction tags generalizing done rest with
  | nil =>
      obtain ⟨hWithout, hWritten, hPlaces⟩ := hSame hRest
      exact ⟨rest, hStand, hWithout, hWritten, hPlaces _⟩
  | cons placed tags ih =>
      obtain ⟨front, name, behind, hFirst⟩ := hLabels placed (List.mem_cons_self ..)
      obtain ⟨hStart, -, hBehind⟩ := hFit
      obtain ⟨before, later, rfl, hPlace, hNext⟩ :=
        exists_place hEarlier hFirst hText hStand hRest hStart
      obtain ⟨hWithout, hWritten, hPlaces⟩ :=
        hSame fun other hMem => hRest other (List.mem_append_left _ hMem)
      have hDone : withLabels earlier (done ++ before ++ [.label rule]) =
          withLabels earlier (done ++ before) := by
        rw [withLabels_append, withLabels_label_cons_of_not_mem hNew]
        simp
      obtain ⟨pieces, hPieces, hErased, hSpliced, hOffsets⟩ :=
        @ih (fun other hMem => hLabels other (List.mem_cons_of_mem _ hMem))
          (done ++ before ++ [.label rule]) later
          (by rw [withLabels_append, hDone, ← withLabels_append, ← hText]; simp)
          (by simpa using hNext) (fun other hMem => hRest other (List.mem_append_right _ hMem))
          (by rw [hDone, hPlace]; exact hBehind.of_le hFirst.within)
      rw [hDone] at hSpliced hOffsets
      have hLength : labelPlace placed - (withLabels earlier done).length =
          (withLabels earlier before).length := by
        rw [← hPlace, withLabels_append, List.length_append, Nat.add_sub_cancel_left]
      refine ⟨before ++ .label rule :: pieces, by simpa using hPieces, ?_, ?_, ?_⟩
      · rw [withoutLabels, List.filter_append, List.filter_cons_of_neg (by simp)]
        exact congrArg₂ (· ++ ·) hWithout hErased
      · rw [withLabels_append, withLabels_label_cons (by simp), hWritten, hSpliced, hPlace,
          withLabels_append, List.map_cons, splicedFrom]
        simp only [start_putEdit, stop_putEdit, replacement_putEdit, hLength, List.take_left,
          List.drop_left, List.append_assoc]
      · have hHere : (Piece.label rule).text earlier = [] := by simp [Piece.text, hNew]
        rw [labelPlaces_append, hPlaces, List.nil_append, labelPlaces, if_pos rfl, hHere,
          List.length_nil, Nat.add_zero, ← List.length_append, ← withLabels_append, hOffsets,
          hPlace, List.map_cons]

end

end Rule

/-- The last rule works on what the rules before it leave. -/
theorem outcome_addLabels_concat (rules : List Rule) (rule : Rule) (text : List Char) :
    (addLabels (rules ++ [rule]) text).outcome =
      (addLabels rules text).outcome >>= fun labelled => (rule.apply labelled).outcome := by
  induction rules generalizing text with
  | nil =>
      simp only [addLabels, List.nil_append, List.foldlM_cons, List.foldlM_nil, Logged.outcome_bind,
        Logged.outcome_pure, ok_bind]
      cases (rule.apply text).outcome <;> rfl
  | cons first rest ih =>
      simp only [addLabels, List.cons_append, List.foldlM_cons, Logged.outcome_bind] at ih ⊢
      cases (first.apply text).outcome with
      | error fault => rfl
      | ok middle => exact ih middle

/-- The rules work on tags of different names, and only the last one looks for them in the text. -/
theorem Rule.pairwise_all :
    all.Pairwise fun one later => one.finder = .elements ∧ one ≠ later := by
  decide

/-- What the rules do to a text, rule by rule: each finds the tags that it labels in the text with
the labels of those before it. -/
theorem exists_pieces {rules : List Rule} (hRules : rules.Sublist Rule.all)
    {text labelled : List Char} (hAdd : (addLabels rules text).outcome = .ok labelled) :
    ∃ pieces, LabelsStand rules pieces ∧ withLabels [] pieces = text ∧
      withLabels rules pieces = labelled ∧
      ∀ earlier rule later, rules = earlier ++ rule :: later →
        (addLabels earlier text).outcome = .ok (withLabels earlier pieces) ∧
        ∃ tags, rule.targets (withLabels earlier pieces) = .ok tags ∧
          labelPlaces earlier rule 0 pieces = tags.map Rule.labelPlace := by
  induction rules using List.reverseRecOn generalizing labelled with
  | nil =>
      cases hAdd
      refine ⟨text.map .char, ?_, by simp, by simp, by simp⟩
      intro front rule behind hSplit
      exact absurd (by rw [hSplit]; simp) (label_not_mem_map_char rule text)
  | append_singleton rules last ih =>
      rw [outcome_addLabels_concat, bind_eq_ok_iff] at hAdd
      obtain ⟨middle, hMiddle, hApply⟩ := hAdd
      obtain ⟨pieces, hStand, hSource, rfl, hEach⟩ :=
        ih ((List.sublist_append_left _ _).trans hRules) hMiddle
      have hPairwise := Rule.pairwise_all.sublist hRules
      have hEarlier : ∀ other ∈ rules,
          other ∈ Rule.all ∧ other.finder = .elements ∧ other ≠ last := fun other hMem =>
        ⟨hRules.subset (List.mem_append_left _ hMem),
          (List.pairwise_append.1 hPairwise).2.2 other hMem last (List.mem_singleton_self _)⟩
      have hNew := Rule.not_mem_earlier hEarlier
      obtain ⟨tags, hTags, rfl, hFit, hLabels⟩ :=
        Rule.exists_targets (hRules.subset (by simp)) hApply
      have hMore : LabelsStand (rules ++ [last]) ([] ++ pieces) := by
        intro front rule behind hSplit
        obtain ⟨hMem, hBehind, hTag⟩ := hStand front rule behind hSplit
        exact ⟨List.mem_append_left _ hMem, hBehind, hTag⟩
      obtain ⟨marked, hMarked, hErased, hWritten, hPlaces⟩ :=
        Rule.exists_places hEarlier hLabels rfl hMore (fun other hMem => hStand.mem hMem) hFit
      have hSame {others : List Rule} (hOthers : last ∉ others) :
          withLabels others marked = withLabels others pieces := by
        rw [← hErased, withLabels_withoutLabels hOthers]
      refine ⟨marked, hMarked, by rw [hSame (by simp), hSource], hWritten, ?_⟩
      intro earlier rule later hSplit
      rcases later.eq_nil_or_concat with rfl | ⟨later, other, rfl⟩
      · obtain ⟨rfl, hLast⟩ := List.append_inj' hSplit rfl
        obtain rfl := (List.cons.inj hLast).1
        rw [hSame hNew]
        exact ⟨hMiddle, tags, hTags, hPlaces⟩
      · rw [List.concat_eq_append, ← List.cons_append, ← List.append_assoc] at hSplit
        obtain ⟨rfl, -⟩ := List.append_inj' hSplit rfl
        have hRule : rule ≠ last := fun hSame => hNew (by simp [hSame])
        have hOthers : last ∉ earlier := fun hMem => hNew (by simp [hMem])
        rw [hSame hOthers, ← labelPlaces_withoutLabels hOthers hRule, hErased]
        exact hEach earlier rule later rfl

/-- The rules do nothing but add. The text that they lead to is the text itself with labels between
its characters: leaving them out gives it back. Every label is that of an enabled rule and stands
directly behind the `<` and the name of a tag. Each rule in turn puts in one label for each tag that
it finds in the text with the labels of those before it, and none elsewhere. -/
theorem labels_are_added {config : Config} {text labelled : List Char}
    (hAdd : (addLabels config.rules text).outcome = .ok labelled) :
    ∃ pieces, withLabels config.rules pieces = labelled ∧ withLabels [] pieces = text ∧
      (∀ front rule behind, pieces = front ++ .label rule :: behind →
        rule ∈ config.rules ∧ BehindName front behind) ∧
      ∀ earlier rule later, config.rules = earlier ++ rule :: later →
        (addLabels earlier text).outcome = .ok (withLabels earlier pieces) ∧
        ∃ tags, rule.targets (withLabels earlier pieces) = .ok tags ∧
          labelPlaces earlier rule 0 pieces = tags.map Rule.labelPlace := by
  obtain ⟨pieces, hStand, hSource, hWritten, hEach⟩ := exists_pieces List.filter_sublist hAdd
  refine ⟨pieces, hWritten, hSource, fun front rule behind hSplit => ?_, hEach⟩
  obtain ⟨hMem, hBehind, -⟩ := hStand front rule behind hSplit
  exact ⟨hMem, hBehind⟩

/-- A form and the input in it get their labels, one from the document and one from the text. -/
theorem labels_are_added_form :
    (addLabels Config.standard.rules "<form><INPUT id=a>".toList).outcome =
        .ok "<form aria-labelledby=\"form-label\"><INPUT aria-label=\"input\" id=a>".toList ∧
      ∃ pieces, withLabels Config.standard.rules pieces =
          "<form aria-labelledby=\"form-label\"><INPUT aria-label=\"input\" id=a>".toList ∧
        withLabels [] pieces = "<form><INPUT id=a>".toList ∧
        ∀ front rule behind, pieces = front ++ .label rule :: behind →
          rule ∈ Config.standard.rules ∧ BehindName front behind := by
  have hAdd : (addLabels Config.standard.rules "<form><INPUT id=a>".toList).outcome =
      .ok "<form aria-labelledby=\"form-label\"><INPUT aria-label=\"input\" id=a>".toList :=
    eq_ok_of_toOption (by decide +kernel)
  obtain ⟨pieces, hWritten, hSource, hStand, -⟩ := labels_are_added hAdd
  exact ⟨hAdd, pieces, hWritten, hSource, hStand⟩

end AccessibleMarkup
