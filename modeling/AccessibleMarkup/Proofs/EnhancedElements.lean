import AccessibleMarkup.Audit.Checks
import AccessibleMarkup.Proofs.Cleaning
import AccessibleMarkup.Proofs.KeptLabels
import AccessibleMarkup.Proofs.LabelledCuts

/-! What the enhancement leaves of the elements that it looks at. Each rule gives its attribute to
the elements that lack it, and the cleanup then takes the attributes away whose values are not
valid. An attribute without a value is not valid, and a rule does not look at values; so an element
that has the attribute without a value ends up without it. -/
namespace AccessibleMarkup

open AccessibleMarkup.Markup
open AccessibleMarkup.Text

namespace Markup

/-- The elements that the tags of a text open, wherever they stand. -/
def readElements (text : List Char) : List Element :=
  (openings [] (scan text).tokens).map fun opening => opening.element.placeless

/-- An element that was read has one attribute of each name. -/
theorem Element.oneEach_of_mem {text : List Char} {element : Element}
    (hMem : element ∈ readElements text) : element.OneEach := by
  obtain ⟨opening, -, rfl⟩ := List.mem_map.1 hMem
  exact opening.tag.oneEach_element none

/-- The elements of a document are those that its text opens. -/
theorem Document.map_placeless_elements {text : List Char} {document : Document}
    (hRead : Document.read text = .ok document) :
    document.elements.map Element.placeless = readElements text := by
  obtain ⟨-, -, hElements, -⟩ := readable_of_read hRead
  rw [hElements, List.map_map]
  rfl

/-- What all elements of a document have in common, wherever they stand. -/
theorem Document.forall_mem_elements_iff {text : List Char} {document : Document}
    (hRead : Document.read text = .ok document) {holds : Element → Prop}
    (hPlaceless : ∀ element, holds element.placeless ↔ holds element) :
    (∀ element ∈ document.elements, holds element) ↔
      ∀ element ∈ readElements text, holds element := by
  rw [← document.map_placeless_elements hRead]
  simp only [List.forall_mem_map, hPlaceless]

/-- Where tags are written anew, the elements that they open change as the tags do, whatever text
stands before them. -/
theorem map_element_openings_rewrite {changeTag : OpenTag → OpenTag} {change : Element → Element}
    (hRetags : Retags changeTag change) (write : OpenTag → List Char) (before other : List Char)
    (tokens : List Token) :
    (openings other (tokens.map (Token.rewrite write changeTag))).map
        (fun opening => opening.element.placeless) =
      (openings before tokens).map fun opening => (change opening.element).placeless := by
  induction tokens generalizing before other with
  | nil => rfl
  | cons token rest ih =>
      rcases token.content.openTag_or_other with ⟨tag, hContent⟩ | hOther
      · rw [List.map_cons, Token.rewrite_openTag _ _ hContent, openings_cons_openTag _ _ rfl,
          openings_cons_openTag _ _ hContent, List.map_cons, List.map_cons, ih]
        exact congrArg (· :: _) (hRetags.element tag _)
      · rw [List.map_cons, Token.rewrite_other _ _ hOther, openings_cons_other _ _ hOther,
          openings_cons_other _ _ hOther]
        exact ih _ _

/-- Where the tags of a text were written anew and are read so, its elements are changed. -/
theorem readElements_rewritten {changeTag : OpenTag → OpenTag} {change : Element → Element}
    (hRetags : Retags changeTag change)
    (hPlaceless : ∀ element, (change element).placeless = change element.placeless)
    {write : OpenTag → List Char} {text other : List Char}
    (hTokens : (scan other).tokens = (scan text).tokens.map (Token.rewrite write changeTag)) :
    readElements other = (readElements text).map change := by
  rw [readElements, hTokens, map_element_openings_rewrite hRetags write [] [], readElements,
    List.map_map]
  exact List.map_congr_left fun opening _ => hPlaceless _

end Markup

namespace Rule

@[simp] theorem name_labelElement (rule : Rule) (element : Element) :
    (rule.labelElement element).name = element.name := by
  unfold labelElement
  split <;> rfl

theorem placeless_labelElement (rule : Rule) (element : Element) :
    (rule.labelElement element).placeless = rule.labelElement element.placeless := by
  have hSelects : rule.selects element.placeless = rule.selects element := rfl
  unfold labelElement
  rw [hSelects]
  split <;> rfl

/-- Other attributes stay when an element gets its label. -/
theorem has_labelElement (rule : Rule) (element : Element) {name : String}
    (hName : name ≠ rule.attributeName) :
    (rule.labelElement element).has name = element.has name := by
  unfold labelElement
  split
  · simp [Element.has, hName.symm]
  · rfl

def labelElements (rules : List Rule) (element : Element) : Element :=
  rules.foldl (fun element rule => rule.labelElement element) element

@[simp] theorem name_labelElements (rules : List Rule) (element : Element) :
    (labelElements rules element).name = element.name := by
  induction rules generalizing element with
  | nil => rfl
  | cons rule rest ih => exact (ih _).trans (name_labelElement rule element)

/-- An element that no rule selects gets no label. -/
theorem labelElements_of_not_selected {rules : List Rule} {element : Element}
    (hNone : ∀ rule ∈ rules, rule.selects element = false) :
    labelElements rules element = element := by
  induction rules with
  | nil => rfl
  | cons rule rest ih =>
      have hSame : rule.labelElement element = element := by
        rw [labelElement, hNone rule (List.mem_cons_self ..), if_neg (by simp)]
      rw [labelElements, List.foldl_cons, hSame]
      exact ih fun other hMem => hNone other (List.mem_cons_of_mem _ hMem)

section
variable {rules : List Rule} (hRules : ∀ rule ∈ rules, rule ∈ all)
include hRules

/-- Of all the rules, an element gets the label of the one for its name. -/
theorem labelElements_eq {rule : Rule} (hMem : rule ∈ rules) {element : Element}
    (hName : element.name = rule.tag) :
    labelElements rules element = rule.labelElement element := by
  induction rules with
  | nil => simp at hMem
  | cons first rest ih =>
      have hRest := fun other hOther => hRules other (List.mem_cons_of_mem _ hOther)
      rw [labelElements, List.foldl_cons]
      by_cases hFirst : first = rule
      · subst hFirst
        refine labelElements_of_not_selected fun other hOther => ?_
        by_cases hTag : element.name = other.tag
        · have hSame : other = first :=
            eq_of_tag_eq (hRest other hOther) (hRules first (List.mem_cons_self ..))
              (hTag.symm.trans hName)
          subst hSame
          unfold labelElement
          split
          · simp [selects, Element.has]
          · simp_all
        · simp [selects, hTag]
      · have hTag : element.name ≠ first.tag := fun hTag =>
          hFirst (eq_of_tag_eq (hRules first (List.mem_cons_self ..)) (hRules rule hMem)
            (hTag.symm.trans hName))
        have hSame : first.labelElement element = element := by simp [labelElement, selects, hTag]
        rw [hSame]
        exact ih hRest ((List.mem_cons.1 hMem).resolve_left fun hSame => hFirst hSame.symm)

/-- Labels bring no attribute but their own. -/
theorem has_labelElements {name : String} (hName : ∀ rule ∈ all, name ≠ rule.attributeName)
    (element : Element) : (labelElements rules element).has name = element.has name := by
  induction rules generalizing element with
  | nil => rfl
  | cons rule rest ih =>
      rw [labelElements, List.foldl_cons]
      exact (ih (fun other hMem => hRules other (List.mem_cons_of_mem _ hMem)) _).trans
        (rule.has_labelElement element (hName rule (hRules rule (List.mem_cons_self ..))))

end

/-- The label of a rule may have any value but the empty one. -/
theorem isInvalid_attribute {rule : Rule} (hRule : rule ∈ all) (value : String) :
    Aria.isInvalid ⟨rule.attributeName, value⟩ = decide (value = "") := by
  have hAll : ∀ rule ∈ all, Aria.isAriaName rule.attributeName = true ∧
      rule.attributeName ∈ Aria.knownNames ∧ rule.attributeName ∉ Aria.booleanNames := by decide
  obtain ⟨hAria, hKnown, hBoolean⟩ := hAll rule hRule
  by_cases hEmpty : value = "" <;>
    simp [Aria.isInvalid, Aria.isValid, hAria, hKnown, hBoolean, hEmpty]

end Rule

namespace Aria

theorem placeless_cleanElement (element : Element) :
    (cleanElement element).placeless = cleanElement element.placeless := rfl

/-- Attributes that are no ARIA attributes stay. -/
theorem has_cleanElement_of_not_aria {name : String} (hName : isAriaName name = false)
    (element : Element) : (cleanElement element).has name = element.has name := by
  rw [Element.has, cleanElement, List.any_filter]
  congr 1
  funext known
  by_cases hSame : known.name = name
  · simp [isInvalid, hSame, hName]
  · simp [hSame]

end Aria

namespace Rule

section
variable {rule : Rule} (hRule : rule ∈ all)
include hRule

/-- The cleanup leaves the attribute of a rule where it has a value. -/
theorem has_cleanElement {element : Element} (hOne : element.OneEach)
    (hHas : element.has rule.attributeName = true) :
    (Aria.cleanElement element).has rule.attributeName = true ↔
      element.value? rule.attributeName ≠ some "" := by
  obtain ⟨known, hFind⟩ : ∃ known,
      element.attributes.find? (fun known => known.name = rule.attributeName) = some known := by
    rw [← Option.isSome_iff_exists, List.find?_isSome]
    simpa [Element.has] using hHas
  have hKnown := List.mem_of_find?_eq_some hFind
  have hName : known.name = rule.attributeName := by simpa using List.find?_some hFind
  have hInvalid : Aria.isInvalid known = decide (known.value = "") := by
    obtain ⟨name, value⟩ := known
    cases hName
    exact isInvalid_attribute hRule value
  have hValue : element.value? rule.attributeName = some known.value := by
    rw [Element.value?, hFind, Option.map_some]
  rw [hValue, ne_eq, Option.some.injEq]
  simp only [Element.has, Aria.cleanElement, List.any_eq_true, List.mem_filter, decide_eq_true_eq,
    Bool.not_eq_true']
  constructor
  · rintro ⟨other, ⟨hOther, hValid⟩, hSame⟩ hEmpty
    rw [hOne.eq other hOther known hKnown (hSame.trans hName.symm), hInvalid] at hValid
    simp [hEmpty] at hValid
  · intro hSome
    exact ⟨known, ⟨hKnown, by simp [hInvalid, hSome]⟩, hName⟩

/-- With its label and cleaned, an element of the rule has the attribute exactly where it did not
have it without a value. -/
theorem has_cleaned_labelled {rules : List Rule} (hRules : ∀ rule ∈ rules, rule ∈ all)
    (hMem : rule ∈ rules) {element : Element} (hOne : element.OneEach)
    (hName : element.name = rule.tag) :
    (Aria.cleanElement (labelElements rules element)).has rule.attributeName = true ↔
      element.value? rule.attributeName ≠ some "" := by
  rw [labelElements_eq hRules hMem hName]
  cases hHas : element.has rule.attributeName with
  | true =>
      have hSame : rule.labelElement element = element := by simp [labelElement, selects, hHas]
      rw [hSame]
      exact has_cleanElement hRule hOne hHas
  | false =>
      have hLacks : element.value? rule.attributeName = none := by
        rw [Element.value?, Option.map_eq_none_iff, List.find?_eq_none]
        simpa [Element.has] using hHas
      have hSelects : rule.selects element = true := by simp [selects, hName, hHas]
      have hLabel : Aria.isInvalid ⟨rule.attributeName, rule.value⟩ = false := by
        simp [Aria.isInvalid, isValid_label hRule]
      rw [labelElement, if_pos hSelects, hLacks]
      simp [Aria.cleanElement, Element.has, hLabel]

end

end Rule

/-- The rules are applied one after the other, and each leaves the elements of the text before it,
with its attribute added where they lack it. -/
inductive LabelsRead : List Rule → List Char → List Char → Prop where
  | nil (text : List Char) : LabelsRead [] text text
  | cons {rule : Rule} {rest : List Rule} {text middle labelled : List Char}
      (apply : (rule.apply text).outcome = .ok middle)
      (elements : readElements middle = (readElements text).map rule.labelElement)
      (more : LabelsRead rest middle labelled) : LabelsRead (rule :: rest) text labelled

/-- After all rules, the elements of a text carry the labels of all rules. -/
theorem LabelsRead.readElements_eq {rules : List Rule} {text labelled : List Char}
    (hLabels : LabelsRead rules text labelled) :
    readElements labelled = (readElements text).map (Rule.labelElements rules) := by
  induction hLabels with
  | nil text =>
      have hSame : Rule.labelElements [] = id := rfl
      rw [hSame, List.map_id]
  | cons apply elements more ih =>
      rw [ih, elements, List.map_map]
      rfl

/-- The audit finds no input to complain about exactly where each one has an id or a label. -/
theorem inputIssues_eq_nil_iff {document : Document} :
    inputIssues document = [] ↔ ∀ element ∈ document.elements, element.name = "input" →
      element.has "id" = true ∨ element.has "aria-label" = true := by
  rw [inputIssues, List.map_eq_nil_iff, List.filter_eq_nil_iff, ← document.map_element_nodes,
    List.forall_mem_map]
  refine forall_congr' fun node => forall_congr' fun _ => ?_
  simp only [Bool.and_eq_true, decide_eq_true_eq, Bool.not_eq_true']
  cases node.element.has "id" <;> cases node.element.has "aria-label" <;> simp

/-- On a plain text every rule goes through as it is meant, and what it leaves is plain. -/
theorem LabelsRead.of_plain {rules : List Rule} (hRules : ∀ rule ∈ rules, rule ∈ Rule.all)
    {text labelled : List Char} {document : Document} (hRead : Document.read text = .ok document)
    (hPlain : Plain text) (hAdd : (addLabels rules text).outcome = .ok labelled) :
    LabelsRead rules text labelled ∧ Plain labelled ∧ (PlainCuts text → PlainCuts labelled) ∧
      ∃ again, Document.read labelled = .ok again := by
  induction rules generalizing text document with
  | nil =>
      have hSame : labelled = text := by
        simpa [addLabels, eq_comm] using hAdd
      subst hSame
      exact ⟨.nil labelled, hPlain, id, document, hRead⟩
  | cons rule rest ih =>
      have hRule := hRules rule (List.mem_cons_self ..)
      have hApply := hPlain.outcome_apply hRule hRead
      have hScan := hPlain.scan_labelled hRule hRead
      have hRetags := Rule.retags_labelElement hRule
      obtain ⟨again, hAgain, -⟩ := Document.read_rewritten hRetags hRead hScan
      rw [addLabels, List.foldlM_cons, Logged.outcome_bind, hApply] at hAdd
      obtain ⟨hLabels, hPlainLabelled, hCuts, hReadLabelled⟩ :=
        ih (fun other hMem => hRules other (List.mem_cons_of_mem _ hMem)) hAgain
          (hPlain.labelled hRule hRead) hAdd
      refine ⟨.cons hApply ?_ hLabels, hPlainLabelled,
        fun hClose => hCuts (hClose.labelled hPlain hRule hRead), hReadLabelled⟩
      exact readElements_rewritten hRetags rule.placeless_labelElement (congrArg Scan.tokens hScan)

/-- On a plain text the cleanup goes through as it is meant where the cuts close up. -/
theorem Aria.readElements_cleaned {text out : List Char} {document : Document}
    (hRead : Document.read text = .ok document) (hPlain : Plain text)
    (hClean : (clean text).outcome = .ok out)
    (hClose : TagsClose (scan text).dropped (scan text).tokens) :
    readElements out = (readElements text).map cleanElement := by
  rw [clean_of_read hRead, Except.ok.injEq] at hClean
  subst hClean
  have hScan := (scan_cleaned_iff_closes hRead).2 ⟨hClose, hPlain.haltsStay hRead cleanTag⟩
  exact readElements_rewritten retags_cleanElement placeless_cleanElement
    (congrArg Scan.tokens hScan)

section
variable {rules : List Rule} (hRules : ∀ rule ∈ rules, rule ∈ Rule.all) {text out : List Char}
  {document again : Document} (hRead : Document.read text = .ok document)
  (hAgain : Document.read out = .ok again)
  (hOut : readElements out =
    (readElements text).map fun element => Aria.cleanElement (Rule.labelElements rules element))
include hRules hRead hAgain hOut

/-- With labels and cleaned, all elements of a rule have the attribute exactly where none of them had
it without a value. -/
theorem Rule.all_labelled_iff {rule : Rule} (hMem : rule ∈ rules) :
    (∀ element ∈ again.elements, element.name = rule.tag →
        element.has rule.attributeName = true) ↔
      ∀ element ∈ document.elements, element.name = rule.tag →
        element.value? rule.attributeName ≠ some "" := by
  rw [Document.forall_mem_elements_iff hAgain fun _ => Iff.rfl,
    Document.forall_mem_elements_iff hRead fun _ => Iff.rfl, hOut, List.forall_mem_map]
  refine forall₂_congr fun element hElement => ?_
  have hName : (Aria.cleanElement (labelElements rules element)).name = element.name :=
    name_labelElements rules element
  rw [hName]
  exact forall_congr' fun hTag =>
    has_cleaned_labelled (hRules rule hMem) hRules hMem (Element.oneEach_of_mem hElement) hTag

/-- With labels and cleaned, the audit accepts all inputs exactly where each of them had an id or did
not have the label without a value. -/
theorem inputIssues_labelled_iff (hMem : Rule.inputs ∈ rules) :
    inputIssues again = [] ↔ ∀ element ∈ document.elements, element.name = "input" →
      element.has "id" = true ∨ element.value? "aria-label" ≠ some "" := by
  rw [inputIssues_eq_nil_iff, Document.forall_mem_elements_iff hAgain fun _ => Iff.rfl,
    Document.forall_mem_elements_iff hRead fun _ => Iff.rfl, hOut, List.forall_mem_map]
  refine forall₂_congr fun element hElement => ?_
  have hName : (Aria.cleanElement (Rule.labelElements rules element)).name = element.name :=
    Rule.name_labelElements rules element
  have hId : (Aria.cleanElement (Rule.labelElements rules element)).has "id" =
      element.has "id" := by
    rw [Aria.has_cleanElement_of_not_aria (by decide), Rule.has_labelElements hRules (by decide)]
  rw [hName, hId]
  exact forall_congr' fun hTag => or_congr_right (Rule.has_cleaned_labelled (hRules _ hMem) hRules
    hMem (Element.oneEach_of_mem hElement) hTag)

end

/-- Where every pass of the enhancement leaves the elements that it is meant to leave, an element
that a rule looks for has the attribute of the rule in the end exactly if it did not have it without
a value in the beginning. So all elements of the rule are labelled exactly where none of them has
the attribute without a value, and the audit accepts all inputs exactly where each of them has an id
or does not have the label without a value. On a plain text the rules do what they are meant to do,
and so does the cleanup where the cuts in that text close up and leave no double quote open. -/
theorem labels_of_enhanced {config : Config} {text out : List Char} {document : Document}
    (hEnhance : enhance config text = .ok out) (hRead : Document.read text = .ok document) :
    ∃ labelled again, (addLabels config.rules text).outcome = .ok labelled ∧
      Document.read out = .ok again ∧
      (LabelsRead config.rules text labelled →
        readElements out = (readElements labelled).map Aria.cleanElement →
          (∀ rule ∈ config.rules,
            (∀ element ∈ again.elements, element.name = rule.tag →
                element.has rule.attributeName = true) ↔
              ∀ element ∈ document.elements, element.name = rule.tag →
                element.value? rule.attributeName ≠ some "") ∧
          (Rule.inputs ∈ config.rules →
            (inputIssues again = [] ↔ ∀ element ∈ document.elements, element.name = "input" →
              element.has "id" = true ∨ element.value? "aria-label" ≠ some ""))) ∧
      (Plain text → LabelsRead config.rules text labelled) ∧
      (Plain text → PlainCuts text →
        readElements out = (readElements labelled).map Aria.cleanElement) := by
  have hRules := config.mem_all_of_mem_rules
  obtain ⟨-, labelled, hAdd, hClean, hGate⟩ := enhance_eq_ok_iff.1 hEnhance
  obtain ⟨again, hAgain⟩ := Aria.exists_read_of_gate hGate
  refine ⟨labelled, again, hAdd, hAgain, fun hLabels hCleaned => ?_, fun hPlain => ?_,
    fun hPlain hCuts => ?_⟩
  · have hOut : readElements out = (readElements text).map fun element =>
        Aria.cleanElement (Rule.labelElements config.rules element) := by
      rw [hCleaned, hLabels.readElements_eq, List.map_map]
      rfl
    exact ⟨fun rule hMem => Rule.all_labelled_iff hRules hRead hAgain hOut hMem,
      fun hMem => inputIssues_labelled_iff hRules hRead hAgain hOut hMem⟩
  · exact (LabelsRead.of_plain hRules hRead hPlain hAdd).1
  · obtain ⟨-, hPlainLabelled, hCutsLabelled, middle, hMiddle⟩ :=
      LabelsRead.of_plain hRules hRead hPlain hAdd
    exact Aria.readElements_cleaned hMiddle hPlainLabelled hClean (hCutsLabelled hCuts).close

/-- A form with an input in it can be read, is a plain text, and nothing is cut out of it. -/
theorem plain_form :
    Document.read "<form><input>".toList =
        .ok ⟨[.opened ⟨"form", [], some ⟨1, 0⟩⟩, .opened ⟨"input", [], some ⟨1, 6⟩⟩,
          .closed "input", .closed "form"]⟩ ∧
      Plain "<form><input>".toList ∧ PlainCuts "<form><input>".toList := by
  have hRead : Document.read "<form><input>".toList =
      .ok ⟨[.opened ⟨"form", [], some ⟨1, 0⟩⟩, .opened ⟨"input", [], some ⟨1, 6⟩⟩,
        .closed "input", .closed "form"]⟩ := by decide +kernel
  let form : OpenTag := { name := "form".toList, gap := [], attributes := [], selfClosed := false }
  let input : OpenTag :=
    { name := "input".toList, gap := [], attributes := [], selfClosed := false }
  have hScan : scan "<form><input>".toList =
      ⟨[⟨.openTag form, form.source⟩, ⟨.openTag input, input.source⟩], [], none⟩ := by
    decide +kernel
  have hEnd := (scans_of_scanOnto hScan).tagsEnd
  have hPlain : Plain "<form><input>".toList := by
    refine ⟨⟨_, none, [], .token (nextStep_of_ends (hEnd.1 form rfl).2 .first)
      (.token (nextStep_of_ends (hEnd.2.1 input rfl).2 .first) (.done none [])), ?_⟩, ?_, ?_⟩
    · rw [hScan]
      simp
    · rintro ⟨front, blank, rest, hText, -⟩
      have hSign : '=' ∈ "<form><input>".toList := by
        rw [hText]
        simp
      revert hSign
      decide
    · rw [hScan]
      refine ⟨.inl ?_, .inr ⟨input, "<input".toList, rfl, by decide +kernel, rfl, by decide⟩, by
        simp [InputTagsWhole, NoInputBegins]⟩
      rw [(hEnd.1 form rfl).2.noInputBegins_iff]
      intro part hPart front rest hText
      obtain rfl : part = "<form".toList := by simpa [OpenTag.parts, form] using hPart
      cases front with
      | nil =>
          obtain rfl : rest = "form".toList := (List.cons.inj hText).2.symm
          decide +kernel
      | cons c front =>
          have hOpen : '<' ∈ "form".toList := by
            rw [show "form".toList = front ++ '<' :: rest from (List.cons.inj hText).2]
            simp
          exact absurd hOpen (by decide)
  refine ⟨hRead, hPlain, hPlain.cuts_of_valid hRead ?_⟩
  rw [hScan]
  intro token hMem tag hContent
  simp only [List.mem_cons, List.not_mem_nil, or_false] at hMem
  rcases hMem with rfl | rfl <;> cases hContent <;> rfl

/-- The form and the input are labelled, and the audit accepts the input. -/
theorem labels_of_enhanced_form :
    enhance .standard "<form><input>".toList =
        .ok "<form aria-labelledby=\"form-label\"><input aria-label=\"input\">".toList ∧
      ∃ again, Document.read
          "<form aria-labelledby=\"form-label\"><input aria-label=\"input\">".toList = .ok again ∧
        (∀ element ∈ again.elements, element.name = "form" →
          element.has "aria-labelledby" = true) ∧
        inputIssues again = [] := by
  have hEnhance : enhance .standard "<form><input>".toList =
      .ok "<form aria-labelledby=\"form-label\"><input aria-label=\"input\">".toList :=
    eq_ok_of_toOption (by decide +kernel)
  obtain ⟨hRead, hPlain, hCuts⟩ := plain_form
  obtain ⟨labelled, again, -, hAgain, hLabelled, hRead, hClean⟩ := labels_of_enhanced hEnhance hRead
  obtain ⟨hRules, hInputs⟩ := hLabelled (hRead hPlain) (hClean hPlain hCuts)
  refine ⟨hEnhance, again, hAgain, (hRules .forms (by decide)).2 ?_, (hInputs (by decide)).2 ?_⟩
  · decide
  · decide

/-- An input whose label has no value loses it and is left without one. So is an input with a value
that holds a `>`, where the text before it looks like a tag with a label. -/
theorem enhanced_input_lacks_label :
    (enhance .standard "<input aria-label>".toList = .ok "<input>".toList ∧
        ∃ again, Document.read "<input>".toList = .ok again ∧
          again.elements.map (·.has "aria-label") = [false] ∧ inputIssues again ≠ []) ∧
      enhance .standard "<input title= \"a aria-label=x>\">".toList =
          .ok "<input title= \"a aria-label=x>\">".toList ∧
        ∃ again, Document.read "<input title= \"a aria-label=x>\">".toList = .ok again ∧
          again.elements.map (·.has "aria-label") = [false] ∧ inputIssues again ≠ [] := by
  have hFirst : Document.read "<input>".toList =
      .ok ⟨[.opened ⟨"input", [], some ⟨1, 0⟩⟩, .closed "input"]⟩ := by decide +kernel
  have hSecond : Document.read "<input title= \"a aria-label=x>\">".toList =
      .ok ⟨[.opened ⟨"input", [⟨"title", "a aria-label=x>"⟩], some ⟨1, 0⟩⟩, .closed "input"]⟩ := by
    decide +kernel
  refine ⟨⟨eq_ok_of_toOption (by decide +kernel), _, hFirst, by decide +kernel, ?_⟩,
    eq_ok_of_toOption (by decide +kernel), _, hSecond, by decide +kernel, ?_⟩
  all_goals
    rw [ne_eq, inputIssues_eq_nil_iff]
    decide +kernel

end AccessibleMarkup
