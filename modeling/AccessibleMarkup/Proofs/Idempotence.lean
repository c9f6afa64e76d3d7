import AccessibleMarkup.Proofs.EnhancedElements

/-! Enhancing a text twice. A second run changes nothing exactly where no rule finds a tag to label in
what the first run left. A plain text with plain cuts stays plain, and then what looks like the tag of
an input is one, so that the elements decide; and which of them end up without their label can be
told from the text that the first run started from. -/
namespace AccessibleMarkup

open AccessibleMarkup.Markup
open AccessibleMarkup.Text

/-- The parts of a tag without some of its attributes are parts of the tag. -/
theorem Markup.OpenTag.mem_parts_without {tag : OpenTag} {cut : List Char → Bool} :
    ∀ part ∈ (tag.without cut).parts, part ∈ tag.parts := by
  intro part hPart
  rw [parts, List.mem_cons] at hPart ⊢
  refine hPart.imp_right fun hBody => ?_
  obtain ⟨written, hWritten, rfl⟩ := List.mem_map.1 hBody
  exact forall_mem_keepFrom (fun _ _ hMem => hMem) (fun other hMem => List.mem_map_of_mem hMem)
    tag.gap written hWritten

/-- What the cleanup leaves of a plain text with plain cuts is plain. -/
theorem Plain.cleaned {text out : List Char} (hPlain : Plain text) (hCuts : PlainCuts text)
    {document : Document} (hRead : Document.read text = .ok document)
    (hClean : (Aria.clean text).outcome = .ok out) : Plain out := by
  rw [Aria.clean_of_read hRead, Except.ok.injEq] at hClean
  subst hClean
  have hScan := (Aria.scan_cleaned_iff_closes hRead).2
    ⟨hCuts.close, hPlain.haltsStay hRead Aria.cleanTag⟩
  have hParts : ∀ tag : OpenTag, ∀ part ∈ (tag.without (Aria.cuts tag)).parts,
      part ∈ tag.parts ∨ '<' ∉ part ∧ '>' ∉ part :=
    fun _ part hPart => .inl (OpenTag.mem_parts_without part hPart)
  exact hPlain.rewritten hRead (OpenTag.name_without · _) (OpenTag.selfClosed_without · _)
    Aria.head?_cleanTag hParts hScan hCuts.closed

/-- In a plain text a rule finds no tag to label exactly where all elements that it looks for have
the attribute. -/
theorem Plain.settled_iff {text : List Char} (hPlain : Plain text) {rule : Rule}
    (hRule : rule ∈ Rule.all) {document : Document} (hRead : Document.read text = .ok document) :
    rule.Settled text ↔ ∀ element ∈ document.elements, element.name = rule.tag →
      element.has rule.attributeName = true := by
  have hSelects : (∀ element ∈ document.elements, rule.selects element = false) ↔
      ∀ element ∈ document.elements, element.name = rule.tag →
        element.has rule.attributeName = true := by
    simp [Rule.selects]
  rw [← hSelects]
  have hFinders : ∀ rule ∈ Rule.all, rule.finder = .elements ∨ rule = Rule.inputs := by decide
  rcases hFinders rule hRule with hFinder | rfl
  · simp [Rule.Settled, hFinder, hRead]
  · obtain ⟨hScans, -⟩ := Document.scans_of_read hRead
    obtain ⟨-, -, hElements, -⟩ := readable_of_read hRead
    have hInputs := hPlain.inputs.isInputTag hScans.tagsEnd []
    rw [hScans.join] at hInputs
    have hSame := Rule.unlabelledInputTags_eq hRead hInputs
    have hNone : Rule.inputs.Settled text ↔ Rule.inputs.unlabelledInputTags text = [] := by
      simp [Rule.Settled, Rule.unlabelledInputTags, List.filter_eq_nil_iff, Rule.inputs]
    rw [hNone, hSame, List.map_eq_nil_iff, Rule.selectedOpenings, List.filter_eq_nil_iff, hElements,
      List.forall_mem_map]
    simp

/-- The enhancement leaves a plain text of a plain text with plain cuts, with every element labelled
and cleaned. -/
theorem enhanced_of_plain {config : Config} {text out : List Char} {document : Document}
    (hEnhance : enhance config text = .ok out) (hRead : Document.read text = .ok document)
    (hPlain : Plain text) (hCuts : PlainCuts text) :
    Plain out ∧ readElements out = (readElements text).map fun element =>
      Aria.cleanElement (Rule.labelElements config.rules element) := by
  obtain ⟨-, labelled, hAdd, hClean, -⟩ := enhance_eq_ok_iff.1 hEnhance
  obtain ⟨hLabels, hPlainLabelled, hCutsLabelled, middle, hMiddle⟩ :=
    LabelsRead.of_plain config.mem_all_of_mem_rules hRead hPlain hAdd
  have hClose := hCutsLabelled hCuts
  refine ⟨hPlainLabelled.cleaned hClose hMiddle hClean, ?_⟩
  rw [Aria.readElements_cleaned hMiddle hPlainLabelled hClean hClose.close, hLabels.readElements_eq,
    List.map_map]
  rfl

/-- A text that came out of the enhancement goes through it again unchanged exactly where no enabled
rule finds a tag to label in it. Whatever the second run labels, the cleanup does not take all of it
back. Where the first run started from a plain text with plain cuts, the second one changes nothing
exactly if no element of an enabled rule had the attribute of the rule without a value there. -/
theorem enhance_again_iff {config : Config} {text out : List Char}
    (hEnhance : enhance config text = .ok out) (hSize : Utf8.byteLength out ≤ maxSize) :
    (enhance config out = .ok out ↔ ∀ rule ∈ config.rules, rule.Settled out) ∧
      ∀ document, Document.read text = .ok document → Plain text → PlainCuts text →
        (enhance config out = .ok out ↔
          ∀ rule ∈ config.rules, ∀ element ∈ document.elements, element.name = rule.tag →
            element.value? rule.attributeName ≠ some "") := by
  have hRules := config.mem_all_of_mem_rules
  obtain ⟨-, -, -, -, hGate⟩ := enhance_eq_ok_iff.1 hEnhance
  obtain ⟨again, hAgain⟩ := Aria.exists_read_of_gate hGate
  have hSettled : enhance config out = .ok out ↔ ∀ rule ∈ config.rules, rule.Settled out := by
    rw [enhance_eq_ok_iff, ← addLabels_eq_self_iff hRules]
    constructor
    · rintro ⟨-, labelled, hAdd, hClean, -⟩
      obtain ⟨hLabelled, -, -⟩ := labelled_addLabels hRules hAdd
      rw [Aria.eq_of_clean_labelled hLabelled hClean] at hAdd
      exact hAdd
    · exact fun hAdd => ⟨hSize, out, hAdd,
        (Aria.clean_eq_self_iff hAgain).2 ((Aria.gate_eq_ok_iff hAgain).1 hGate), hGate⟩
  refine ⟨hSettled, fun document hRead hPlain hCuts => ?_⟩
  obtain ⟨hPlainOut, hOut⟩ := enhanced_of_plain hEnhance hRead hPlain hCuts
  rw [hSettled]
  exact forall₂_congr fun rule hMem => (hPlainOut.settled_iff (hRules rule hMem) hAgain).trans
    (Rule.all_labelled_iff hRules hRead hAgain hOut hMem)

/-- Once the form and the input carry their labels, no rule finds a tag to label. -/
theorem enhance_again_form :
    enhance .standard "<form><input>".toList =
        .ok "<form aria-labelledby=\"form-label\"><input aria-label=\"input\">".toList ∧
      Utf8.byteLength
          "<form aria-labelledby=\"form-label\"><input aria-label=\"input\">".toList ≤ maxSize ∧
      ∀ rule ∈ Config.standard.rules, rule.Settled
        "<form aria-labelledby=\"form-label\"><input aria-label=\"input\">".toList := by
  have hEnhance : enhance .standard "<form><input>".toList =
      .ok "<form aria-labelledby=\"form-label\"><input aria-label=\"input\">".toList :=
    eq_ok_of_toOption (by decide +kernel)
  have hSize : Utf8.byteLength
      "<form aria-labelledby=\"form-label\"><input aria-label=\"input\">".toList ≤ maxSize := by
    decide +kernel
  obtain ⟨hRead, hPlain, hCuts⟩ := plain_form
  obtain ⟨hSettled, hAgain⟩ := enhance_again_iff hEnhance hSize
  exact ⟨hEnhance, hSize, hSettled.1 ((hAgain _ hRead hPlain hCuts).2 (by decide))⟩

/-- The rule for buttons passes over a button with an empty label, and the cleanup takes the empty
label away. The second run labels the button. -/
theorem enhance_again_labels_button :
    enhance .standard "<button aria-label></button>".toList = .ok "<button></button>".toList ∧
      Utf8.byteLength "<button></button>".toList ≤ maxSize ∧
      enhance .standard "<button></button>".toList =
        .ok "<button aria-label=\"button\"></button>".toList ∧
      enhance .standard "<button></button>".toList ≠ .ok "<button></button>".toList := by
  have hSecond : enhance .standard "<button></button>".toList =
      .ok "<button aria-label=\"button\"></button>".toList :=
    eq_ok_of_toOption (by decide +kernel)
  refine ⟨eq_ok_of_toOption (by decide +kernel), by decide +kernel, hSecond, ?_⟩
  rw [hSecond]
  simp

end AccessibleMarkup
