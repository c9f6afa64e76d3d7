import AccessibleMarkup.Proofs.ElementTags
import AccessibleMarkup.Proofs.LabelPlaces

/-! Inputs that are found in the text, and inputs of the document. The text is searched for what
looks like the tag of an input, up to the first `>` and wherever it stands, while the document has
the tags that the tokeniser read. The two lead to the same text exactly where the labels go to the
same places, and they do so wherever all that looks like the tag of an input is one. -/
namespace AccessibleMarkup

open AccessibleMarkup.Markup
open AccessibleMarkup.Text

/-- The tag is that of an input among opening tags. -/
inductive IsInputTag (among : List Opening) : PlacedTag → Prop where
  | intro (opening : Opening) (mem : opening ∈ among)
      (name : opening.element.name = Rule.inputs.tag) : IsInputTag among opening.placed

namespace Text

/-- Whether a letter with case comes before does not matter to a character in ASCII. -/
theorem lowerInContext_of_ascii {c : Char} (hC : c.toNat < 0x80) (afterCased : Bool)
    (rest : List Char) : lowerInContext afterCased c rest = [c.toLower] := by
  have hSigma : c.toNat ≠ 0x3A3 := by omega
  simp [lowerInContext, lowerChar, hSigma, hC]

set_option maxRecDepth 4000 in
/-- Only the Kelvin sign has a lower-case form in ASCII, but for the ASCII letters. -/
theorem target_of_mem_caseRuns {run : CaseRun} (hMem : run ∈ caseRuns) (hLow : run.target < 0x80) :
    run.first = run.last ∧ run.target = 'k'.toNat := by
  have hAll : ∀ run ∈ caseRuns, run.target < 0x80 →
      run.first = run.last ∧ run.target = 'k'.toNat := by decide
  exact hAll run hMem hLow

/-- A character outside ASCII has no ASCII letter for its lower-case form, but for the Kelvin sign
and the dotted capital I, which brings its dot along. -/
theorem lowerInContext_of_not_ascii {c d : Char} {more rest : List Char} {afterCased : Bool}
    (hC : ¬ c.toNat < 0x80) (hD : d.toNat < 0x80) (hNoK : d ≠ 'k') (hNonzero : d.toNat ≠ 0)
    (hLower : lowerInContext afterCased c rest = d :: more) : more = ['\u0307'] := by
  unfold lowerInContext at hLower
  split at hLower
  · exfalso
    split at hLower
    all_goals
      rw [← (List.cons.inj hLower).1] at hD
      revert hD
      decide
  · unfold lowerChar at hLower
    rw [if_neg hC] at hLower
    split at hLower
    · exact (List.cons.inj hLower).2.symm
    · exfalso
      have hChar := (List.cons.inj hLower).1
      cases hFound : caseRuns.findSome? fun run => run.lower? c.toNat with
      | none =>
          rw [hFound] at hChar
          rw [← hChar] at hD
          exact hC hD
      | some code =>
          obtain ⟨run, hRun, hCode⟩ := List.exists_of_findSome?_eq_some hFound
          rw [hFound, Option.map_some, Option.getD_some] at hChar
          rw [← hChar] at hD hNonzero
          by_cases hValid : code.isValidChar
          · have hCodeNat : (Char.ofNat code).toNat = code := by
              rw [Char.ofNat, dif_pos hValid]
              rfl
            rw [hCodeNat] at hD
            unfold CaseRun.lower? at hCode
            split at hCode
            · rename_i hWithin
              cases hCode
              obtain ⟨hOne, hTarget⟩ := target_of_mem_caseRuns hRun (by omega)
              have hFirst : c.toNat - run.first = 0 := by omega
              rw [hFirst, Nat.add_zero, hTarget] at hChar
              exact hNoK hChar.symm
            · simp at hCode
          · rw [Char.ofNat, dif_neg hValid] at hNonzero
            exact hNonzero rfl

/-- A character in ASCII that nothing outside ASCII has for its lower-case form. -/
def isOwnLower (d : Char) : Bool :=
  d.toNat < 0x80 && d ≠ 'k' && d.toNat ≠ 0

/-- A name whose lower-case form is a word of such characters is that word in either case. -/
theorem map_toLower_of_lowercaseOnto {word name : List Char} {afterCased : Bool}
    (hWord : word.all isOwnLower = true) (hLower : lowercaseOnto [] afterCased name = word) :
    (∀ c ∈ name, c.toNat < 0x80) ∧ name.map Char.toLower = word := by
  induction name generalizing word afterCased with
  | nil => exact ⟨by simp, hLower⟩
  | cons c name ih =>
      rw [lowercaseOnto, lowercaseOnto_eq, List.append_nil, List.reverse_reverse] at hLower
      by_cases hC : c.toNat < 0x80
      · rw [lowerInContext_of_ascii hC] at hLower
        subst hLower
        obtain ⟨hAscii, hName⟩ := ih (Bool.and_eq_true _ _ ▸ hWord).2 rfl
        exact ⟨List.forall_mem_cons.2 ⟨hC, hAscii⟩, congrArg (c.toLower :: ·) hName⟩
      · exfalso
        cases hHead : lowerInContext afterCased c name with
        | nil =>
            unfold lowerInContext lowerChar at hHead
            repeat' split at hHead
            all_goals simp at hHead
        | cons d more =>
            rw [hHead] at hLower
            have hOwn := List.all_eq_true.1 hWord
            obtain ⟨⟨hLow, hNoK⟩, hNonzero⟩ : (d.toNat < 0x80 ∧ d ≠ 'k') ∧ d.toNat ≠ 0 := by
              simpa [isOwnLower] using hOwn d (by simp [← hLower])
            have hDot := lowerInContext_of_not_ascii hC hLow hNoK hNonzero hHead
            exact absurd (hOwn '\u0307' (by simp [← hLower, hDot])) (by decide)

end Text

/-- A word is found in either case. -/
theorem Markup.afterWord?_map_toLower (name rest : List Char) :
    afterWord? (name.map Char.toLower) (name ++ rest) = some rest := by
  induction name with
  | nil => rfl
  | cons c name ih => simpa [afterWord?, matchesLetter] using ih

def isInputLetter (c : Char) : Bool :=
  "input".toList.contains c.toLower

theorem admitsAttribute_of_isInputLetter {c : Char} (hAscii : c.toNat < 0x80)
    (hLetter : isInputLetter c = true) : admitsAttribute c = false := by
  revert hLetter
  apply forall_ascii ?_ hAscii
  decide

/-- The tag of an input looks like one. -/
theorem inputTagAfter?_of_ends {tag : OpenTag} {behind : List Char} (hEnds : tag.Ends behind)
    (hName : String.ofList (lowercase tag.name) = "input") :
    ∃ source, inputTagAfter? (tag.sourceTail ++ behind) = some source := by
  have hLower : lowercase tag.name = "input".toList := by
    rw [← hName, String.toList_ofList]
  obtain ⟨hAscii, hLetters⟩ := map_toLower_of_lowercaseOnto (by decide) hLower
  have hText : tag.sourceTail ++ behind =
      tag.name ++ (tag.gap ++ (tag.attributeText ++ (tag.ending ++ behind))) := by
    simp [OpenTag.sourceTail_eq_append]
  obtain ⟨c, rest, hRest, hBegins⟩ : ∃ c rest,
      tag.gap ++ (tag.attributeText ++ (tag.ending ++ behind)) = c :: rest ∧
        (isBlank c || c = '/' || c = '>') = true := by
    cases hGap : tag.gap with
    | cons c gap =>
        have hSeparator := hEnds.gapStops.separators c (by simp [hGap])
        refine ⟨c, _, rfl, ?_⟩
        simp only [isSeparator] at hSeparator
        simp only [hSeparator, Bool.true_or]
    | nil =>
        cases hAttributes : tag.attributes with
        | nil =>
            simp only [OpenTag.attributeText, hAttributes, List.flatMap_nil, List.nil_append,
              OpenTag.ending]
            split <;> exact ⟨_, _, rfl, rfl⟩
        | cons written more =>
            have hFirst := hEnds.attributes
            rw [hAttributes, hGap, List.append_nil] at hFirst
            have hLast : lastOr '<' tag.name ∈ '<' :: tag.name := by
              unfold lastOr
              cases hSome : tag.name.getLast? with
              | none => simp
              | some last => simp [List.mem_of_getLast? hSome]
            have hAdmits := hFirst.1
            rcases List.mem_cons.1 hLast with hOpen | hMem
            · rw [hOpen] at hAdmits
              exact absurd hAdmits (by decide)
            · have hLetter : isInputLetter (lastOr '<' tag.name) = true := by
                rw [isInputLetter, List.contains_iff_mem, ← hLetters]
                exact List.mem_map_of_mem hMem
              rw [admitsAttribute_of_isInputLetter (hAscii _ hMem) hLetter] at hAdmits
              simp at hAdmits
  have hEnd : '>' ∈ tag.sourceTail ++ behind := by
    simp only [OpenTag.sourceTail, OpenTag.ending]
    split <;> simp
  cases hSplit : splitAtFirst? '>' (tag.sourceTail ++ behind) with
  | none => exact absurd hEnd (splitAtFirst?_eq_none_iff.1 hSplit)
  | some read =>
      refine ⟨'<' :: read.1 ++ ['>'], ?_⟩
      have hAfter : afterWord? "input".toList (tag.sourceTail ++ behind) = some (c :: rest) := by
        rw [hText, ← hLetters, afterWord?_map_toLower, hRest]
      simp only [inputTagAfter?, hAfter, hBegins, if_true, hSplit, Option.map_some]

/-- A text has one list of tags in the order of their places. -/
theorem eq_of_ordered {list other : List PlacedTag}
    (hList : list.Pairwise fun one later => one.start < later.start)
    (hOther : other.Pairwise fun one later => one.start < later.start)
    (hMem : ∀ placed, placed ∈ list ↔ placed ∈ other) : list = other := by
  have hDistinct (list : List PlacedTag)
      (hList : list.Pairwise fun one later => one.start < later.start) : list.Nodup :=
    hList.imp fun hLess hSame => by
      rw [hSame] at hLess
      exact Nat.lt_irrefl _ hLess
  refine ((List.perm_ext_iff_of_nodup (hDistinct list hList) (hDistinct other hOther)).2
    hMem).eq_of_pairwise (fun one later _ _ hLess hMore => ?_) hList hOther
  exact absurd (Nat.lt_trans hLess hMore) (Nat.lt_irrefl _)

theorem eq_or_rel_of_pairwise {α : Type} {rel : α → α → Prop} {list : List α}
    (hList : list.Pairwise rel) {one other : α} (hOne : one ∈ list) (hOther : other ∈ list) :
    one = other ∨ rel one other ∨ rel other one := by
  obtain ⟨index, hIndex, rfl⟩ := List.mem_iff_getElem.1 hOne
  obtain ⟨place, hPlace, rfl⟩ := List.mem_iff_getElem.1 hOther
  have hRel := List.pairwise_iff_getElem.1 hList
  rcases Nat.lt_trichotomy index place with hBefore | rfl | hBehind
  · exact .inr (.inl (hRel index place hIndex hPlace hBefore))
  · exact .inl rfl
  · exact .inr (.inr (hRel place index hPlace hIndex hBehind))

/-- The search finds one tag behind the other. -/
theorem pairwise_inputTags (text : List Char) :
    (inputTags text).Pairwise fun one later => one.start < later.start := by
  have hFit := (findsInputs_inputTagsOnto 0 text).fit fun _ => []
  have hOrdered := (hFit.pairwise fun edit hMem => ?_).2
  · rw [List.pairwise_map] at hOrdered
    exact hOrdered
  · obtain ⟨placed, hPlaced, rfl⟩ := List.mem_map.1 hMem
    obtain ⟨-, body, -, -, -, hSource, -⟩ := Rule.closesIn_of_mem_inputTags hPlaced
    simp [PlacedTag.stop, hSource]

/-- A tag has an attribute in its text where it has it as it is read. -/
theorem Markup.hasAttribute_source {tag : OpenTag} {behind : List Char} (hEnds : tag.Ends behind)
    (name : List Char) :
    hasAttribute tag.source name =
      tag.readAttributes.any fun known => known.name = String.ofList (lowercase name) := by
  rw [OpenTag.readAttributes, foldl_addAttribute, any_name_dictionary,
    ← map_read_placedFrom ('<' :: tag.name ++ tag.gap).length, ← attributesOf_source hEnds,
    List.any_map, hasAttribute]
  congr 1
  funext placed
  exact decide_eq_decide.2 String.ofList_inj.symm

namespace Rule

/-- The rule of the inputs if it looked for them in the document. -/
def inputElements : Rule :=
  { inputs with finder := .elements }

/-- The opening tags that the rule selects in a text. -/
def selectedOpenings (rule : Rule) (text : List Char) : List Opening :=
  (openings [] (scan text).tokens).filter fun opening => rule.selects opening.element

/-- A rule that looks for elements edits the tags that it selects. -/
theorem elementEdits_eq_selected (rule : Rule) {text : List Char} {document : Document}
    (hRead : Document.read text = .ok document) :
    elementEdits rule text =
      .ok (((rule.selectedOpenings text).map Opening.placed).map rule.labelledEdit) := by
  obtain ⟨-, hStand, -, -⟩ := readable_of_read hRead
  rw [rule.elementEdits_of_read hRead, List.map_map]
  congr 1
  rw [selectedOpenings, ← List.filterMap_eq_map, List.filterMap_filter]
  refine List.filterMap_congr fun opening hMem => ?_
  obtain ⟨behind, -, hTag⟩ := hStand opening hMem
  have hEnds := (readOpenTag_eq_complete_iff.1 hTag).2
  rw [selects_element, Opening.edit?, labelled?]
  split
  · have hStart : tagStart opening.placed.source = '<' :: opening.tag.name := tagStart_source hEnds
    have hBehind : opening.placed.source.drop ('<' :: opening.tag.name).length =
        opening.tag.gap ++ (opening.tag.attributeText ++ opening.tag.ending) := by
      rw [Opening.placed, opening.tag.source_eq_append, List.drop_left]
    simp only [Option.map_some, Function.comp_apply, labelledEdit, hStart, hBehind, labelText]
  · rfl

/-- Where all that looks like the tag of an input is one, all inputs are found in the text. -/
theorem inputTags_eq_openings {text : List Char} {document : Document}
    (hRead : Document.read text = .ok document)
    (hInputs : ∀ placed ∈ inputTags text, IsInputTag (openings [] (scan text).tokens) placed) :
    inputTags text = ((openings [] (scan text).tokens).filter fun opening =>
      opening.element.name = inputs.tag).map Opening.placed := by
  obtain ⟨hSource, hStand, -, -⟩ := readable_of_read hRead
  have hOrdered : (openings [] (scan text).tokens).Pairwise fun one later =>
      one.placed.start < later.placed.start ∧ one.placed.stop ≤ later.placed.start :=
    pairwise_placed_openings hSource []
  refine eq_of_ordered (pairwise_inputTags text) ?_ fun placed => ⟨fun hMem => ?_, fun hMem => ?_⟩
  · rw [List.pairwise_map]
    exact (hOrdered.sublist List.filter_sublist).imp And.left
  · obtain ⟨opening, hOpening, hName⟩ := hInputs placed hMem
    exact List.mem_map_of_mem (List.mem_filter.2 ⟨hOpening, decide_eq_true hName⟩)
  · obtain ⟨opening, hFiltered, rfl⟩ := List.mem_map.1 hMem
    obtain ⟨hOpening, hName⟩ := List.mem_filter.1 hFiltered
    obtain ⟨behind, hText, hTag⟩ := hStand opening hOpening
    obtain ⟨source, hLooks⟩ := inputTagAfter?_of_ends (readOpenTag_eq_complete_iff.1 hTag).2
      (of_decide_eq_true hName)
    have hSplit : text = opening.before ++ '<' :: (opening.tag.sourceTail ++ behind) := by
      rw [hText]
      simp [OpenTag.source]
    obtain ⟨placed, hPlaced, hPlace⟩ := (findsInputs_inputTagsOnto 0 text).complete hSplit hLooks
    obtain ⟨other, hOther, -⟩ := hInputs placed hPlaced
    have hWithin : other.placed.start ≤ opening.placed.start ∧
        opening.placed.start < other.placed.stop := by
      rw [Nat.zero_add] at hPlace
      rcases hPlace with hFound | ⟨hStart, hStop⟩
      · have hStart : other.placed.start = opening.placed.start := by
          rw [hFound]
          rfl
        have hLong : other.placed.start < other.placed.stop := by
          simp [Opening.placed, PlacedTag.stop, OpenTag.source]
        omega
      · exact ⟨Nat.le_of_lt hStart, hStop⟩
    have hSame : other = opening := by
      rcases eq_or_rel_of_pairwise hOrdered hOther hOpening with hSame | ⟨-, hApart⟩ | ⟨hLess, -⟩
      · exact hSame
      · omega
      · omega
    rw [hSame] at hPlaced
    exact hPlaced

/-- Edits that fit and put labels in are carried out. -/
theorem outcome_apply_of_edits {rule : Rule} {text : List Char} {edits : List Edit}
    (hEdits : rule.edits text = .ok edits) (hFit : FitBetween 0 text.length edits)
    (hPuts : ∀ edit ∈ edits, PutsLabel rule text edit) :
    (rule.apply text).outcome = .ok (splicedFrom 0 text edits) := by
  have hSplice := splice_of_putsLabel hFit hPuts
  simp only [apply, hEdits, Logged.outcome_bind, Logged.outcome_ofOutcome, ok_bind]
  split <;> simp [hSplice]

theorem outcome_apply_of_error {rule : Rule} {text : List Char} {failure : Failure}
    (hEdits : rule.edits text = .error failure) : (rule.apply text).outcome = .error failure := by
  simp only [apply, hEdits, Logged.outcome_bind, Logged.outcome_ofOutcome]
  rfl

/-- The tags of inputs that lack the attribute are the same in the text and in the document, where
all that looks like such a tag is one. -/
theorem unlabelledInputTags_eq {text : List Char} {document : Document}
    (hRead : Document.read text = .ok document)
    (hInputs : ∀ placed ∈ inputTags text, IsInputTag (openings [] (scan text).tokens) placed) :
    inputs.unlabelledInputTags text = (inputs.selectedOpenings text).map Opening.placed := by
  obtain ⟨-, hStand, -, -⟩ := readable_of_read hRead
  rw [unlabelledInputTags, inputTags_eq_openings hRead hInputs, List.filter_map, List.filter_filter,
    selectedOpenings]
  congr 1
  refine List.filter_congr fun opening hMem => ?_
  obtain ⟨behind, -, hTag⟩ := hStand opening hMem
  have hHas := hasAttribute_source (readOpenTag_eq_complete_iff.1 hTag).2
    inputs.attributeName.toList
  have hName : String.ofList (lowercase inputs.attributeName.toList) = inputs.attributeName := by
    decide
  rw [hName] at hHas
  rw [Function.comp_apply, Opening.placed, hHas, Bool.and_comm]
  rfl

/-- Where all that looks like the tag of an input is one, the way over the text labels the tags of
the document. -/
theorem apply_inputs_of_tags {text : List Char} {document : Document}
    (hRead : Document.read text = .ok document)
    (hInputs : ∀ placed ∈ inputTags text, IsInputTag (openings [] (scan text).tokens) placed) :
    (inputs.apply text).outcome = (inputElements.apply text).outcome := by
  have hMember : inputs ∈ all := by decide
  have hSame := unlabelledInputTags_eq hRead hInputs
  have hStarts : ∀ placed ∈ inputs.unlabelledInputTags text, tagStart placed.source ≠ [] := by
    intro placed hMem
    rw [hSame] at hMem
    obtain ⟨opening, hOpening, rfl⟩ := List.mem_map.1 hMem
    obtain ⟨-, hStand, -, -⟩ := readable_of_read hRead
    obtain ⟨behind, -, hTag⟩ := hStand opening (List.mem_filter.1 hOpening).1
    rw [Opening.placed, tagStart_source (readOpenTag_eq_complete_iff.1 hTag).2]
    simp
  have hElementEdits := inputs.elementEdits_eq_selected hRead
  obtain ⟨hFit, hPuts⟩ := elementEdits_fit hMember hElementEdits
  have hInputEdits : inputs.edits text = inputEdits inputs text := rfl
  have hEdits := inputEdits_eq_ok_iff.2 ⟨hStarts, rfl⟩
  rw [hSame] at hEdits
  rw [outcome_apply_of_edits (hInputEdits.trans hEdits) hFit hPuts,
    @outcome_apply_of_edits inputElements _ _ hElementEdits hFit hPuts]

/-- The two ways lead to the same text exactly where they label the same places. -/
theorem apply_inputs_eq_iff {text : List Char} {document : Document}
    (hRead : Document.read text = .ok document) :
    (inputs.apply text).outcome = (inputElements.apply text).outcome ↔
      (∀ placed ∈ inputs.unlabelledInputTags text, tagStart placed.source ≠ []) ∧
        (inputs.unlabelledInputTags text).map labelPlace =
          ((inputs.selectedOpenings text).map Opening.placed).map labelPlace := by
  have hMember : inputs ∈ all := by decide
  have hElementEdits := inputs.elementEdits_eq_selected hRead
  obtain ⟨hFit, hPuts⟩ := elementEdits_fit hMember hElementEdits
  have hInputEdits : inputs.edits text = inputEdits inputs text := rfl
  rw [@outcome_apply_of_edits inputElements _ _ hElementEdits hFit hPuts]
  by_cases hStarts : ∀ placed ∈ inputs.unlabelledInputTags text, tagStart placed.source ≠ []
  · have hEdits := inputEdits_eq_ok_iff.2 ⟨hStarts, rfl⟩
    obtain ⟨hInputFit, hInputPuts⟩ := inputEdits_fit hMember hEdits
    rw [outcome_apply_of_edits (hInputEdits.trans hEdits) hInputFit hInputPuts, Except.ok.injEq,
      splicedFrom_eq_iff hMember hInputFit hFit
        (fun placed hMem => hInputPuts _ (List.mem_map_of_mem hMem))
        (fun placed hMem => hPuts _ (List.mem_map_of_mem hMem))]
    exact (and_iff_right hStarts).symm
  · refine iff_of_false (fun hSame => ?_) fun hBoth => hStarts hBoth.1
    cases hEdits : inputEdits inputs text with
    | ok edits => exact hStarts (inputEdits_eq_ok_iff.1 hEdits).1
    | error failure =>
        rw [outcome_apply_of_error (hInputEdits.trans hEdits)] at hSame
        cases hSame

/-- The inputs that are found in the text and those of the document. Both ways lead to the same text
exactly where what looks like the tag of an input and lacks the attribute begins with the name of
one and is labelled at the places of the tags of the document, no more and no less. It is so
wherever all that looks like the tag of an input is one from its beginning to its end. The way over
the document labels the tags of the inputs that lack the attribute, and leaves all else as it is. -/
theorem input_paths_agree_iff {text : List Char} {document : Document}
    (hRead : Document.read text = .ok document) :
    ((inputs.apply text).outcome = (inputElements.apply text).outcome ↔
        (∀ placed ∈ inputs.unlabelledInputTags text, tagStart placed.source ≠ []) ∧
          (inputs.unlabelledInputTags text).map labelPlace =
            ((inputs.selectedOpenings text).map Opening.placed).map labelPlace) ∧
      ((∀ placed ∈ inputTags text, IsInputTag (openings [] (scan text).tokens) placed) →
        (inputs.apply text).outcome = (inputElements.apply text).outcome) ∧
      (inputElements.apply text).outcome =
        .ok (rewriteTags inputs.labelTag (scan text).tokens ++ (scan text).dropped) :=
  ⟨apply_inputs_eq_iff hRead, apply_inputs_of_tags hRead,
    @apply_of_read inputElements rfl _ _ hRead⟩

/-- The input is found in the text and in the document alike, in capitals too. -/
theorem input_paths_agree_on_input :
    (inputs.apply "input<INPUT name=a>".toList).outcome =
        .ok "input<INPUT aria-label=\"input\" name=a>".toList ∧
      (inputElements.apply "input<INPUT name=a>".toList).outcome =
        .ok "input<INPUT aria-label=\"input\" name=a>".toList := by
  let tag : OpenTag :=
    { name := "INPUT".toList
      gap := [' ']
      attributes := [⟨"name".toList, some ⟨['='], .bare ['a']⟩, []⟩]
      selfClosed := false }
  have hScan : scan "input<INPUT name=a>".toList =
      ⟨[⟨.text, "input".toList⟩, ⟨.openTag tag, tag.source⟩], [], none⟩ := by decide +kernel
  have hRead : Document.read "input<INPUT name=a>".toList =
      .ok ⟨[.string .text "input".toList, .opened ⟨"input", [⟨"name", "a"⟩], some ⟨1, 5⟩⟩,
        .closed "input"]⟩ := by decide +kernel
  obtain ⟨-, hAgree, hTree⟩ := input_paths_agree_iff hRead
  have hElements : (inputElements.apply "input<INPUT name=a>".toList).outcome =
      .ok "input<INPUT aria-label=\"input\" name=a>".toList := by
    rw [hTree, hScan]
    exact congrArg Except.ok (by decide +kernel)
  refine ⟨(hAgree fun placed hMem => ?_).trans hElements, hElements⟩
  have hTags : inputTags "input<INPUT name=a>".toList = [⟨5, tag.source⟩] := by decide +kernel
  rw [hTags, List.mem_singleton] at hMem
  subst hMem
  rw [hScan]
  exact .intro ⟨"input".toList, tag⟩ (List.mem_singleton_self _) (by decide +kernel)

/-- An input with a label is labelled again where a `>` in a value seems to end its tag, and so is
an input in a comment. The document has no input to label in either text. -/
theorem labelled_input_is_labelled_again :
    ((inputs.apply "<input title=\"a>b\" aria-label=\"x\">".toList).outcome =
          .ok "<input aria-label=\"input\" title=\"a>b\" aria-label=\"x\">".toList ∧
        (inputElements.apply "<input title=\"a>b\" aria-label=\"x\">".toList).outcome =
          .ok "<input title=\"a>b\" aria-label=\"x\">".toList) ∧
      (inputs.apply "<!-- <input> -->".toList).outcome =
          .ok "<!-- <input aria-label=\"input\"> -->".toList ∧
        (inputElements.apply "<!-- <input> -->".toList).outcome =
          .ok "<!-- <input> -->".toList := by
  refine ⟨⟨eq_ok_of_toOption (by decide +kernel), ?_⟩, eq_ok_of_toOption (by decide +kernel), ?_⟩
  · have hRead : Document.read "<input title=\"a>b\" aria-label=\"x\">".toList =
        .ok ⟨[.opened ⟨"input", [⟨"title", "a>b"⟩, ⟨"aria-label", "x"⟩], some ⟨1, 0⟩⟩,
          .closed "input"]⟩ := by decide +kernel
    rw [@apply_of_read inputElements rfl _ _ hRead]
    exact congrArg Except.ok (by decide +kernel)
  · have hRead : Document.read "<!-- <input> -->".toList =
        .ok ⟨[.string .comment " <input> ".toList]⟩ := by decide +kernel
    rw [@apply_of_read inputElements rfl _ _ hRead]
    exact congrArg Except.ok (by decide +kernel)

end Rule

end AccessibleMarkup
