import AccessibleMarkup.Proofs.LabelEdits
import AccessibleMarkup.Proofs.Removals

/-! What the cleanup takes back of the labels. It never takes back all the labels that the rules put
in: if it did, it would cut attributes out of tags whose last attribute of that name is a label, and
the value of a label is valid. The rules leave a text as it is exactly where none of them finds a tag
to label. -/
namespace AccessibleMarkup

open AccessibleMarkup.Markup
open AccessibleMarkup.Text

/-- The name of an ARIA attribute begins with two letters, which is enough to tell. -/
theorem Aria.head_of_isAriaName {c : Char} {rest : List Char} (hC : c.toNat < 0x80)
    (hAria : isAriaName (String.ofList (lowercase (c :: rest))) = true) :
    c.toLower = 'a' ∧ ∃ d more, rest = d :: more ∧ (d.toNat < 0x80 → d.toLower = 'r') := by
  have hLower (afterCased : Bool) {d : Char} (hD : d.toNat < 0x80) (behind : List Char) :
      lowerInContext afterCased d behind = [d.toLower] := by
    have hSigma : d.toNat ≠ 0x3A3 := by omega
    simp [lowerInContext, lowerChar, hSigma, hD]
  simp only [isAriaName, String.toList_ofList, List.isPrefixOf_iff_prefix, lowercase] at hAria
  rw [lowercaseOnto, lowercaseOnto_eq, hLower _ hC] at hAria
  have hText : "aria-".toList = ['a', 'r', 'i', 'a', '-'] := rfl
  rw [hText] at hAria
  obtain ⟨hA, hAria⟩ := List.cons_prefix_cons.1 hAria
  refine ⟨hA.symm, ?_⟩
  cases rest with
  | nil => simp [lowercaseOnto] at hAria
  | cons d more =>
      refine ⟨d, more, rfl, fun hD => ?_⟩
      rw [lowercaseOnto, lowercaseOnto_eq, hLower _ hD] at hAria
      exact (List.cons_prefix_cons.1 hAria).1.symm

/-- No name of an ARIA attribute begins in the text, which is plain ASCII without blanks. -/
def holdsNoAria : List Char → Bool
  | [] => true
  | c :: rest =>
    c.toNat < 0x80 && !isBlank c &&
      (c.toLower != 'a' || rest.head?.any fun d => d.toLower != 'r') && holdsNoAria rest

theorem Rule.holdsNoAria_tail {rule : Rule} (hRule : rule ∈ all) :
    holdsNoAria rule.labelBody.tail = true := by
  revert rule
  decide

namespace Cleaned

/-- Nothing is cut where no name of an ARIA attribute begins. -/
theorem of_holdsNoAria {before : Option Char} {front text left : List Char}
    {cut : List WrittenAttribute} (hFront : holdsNoAria front = true)
    (hCleaned : Cleaned before (front ++ text) left cut) : ∃ rest, left = front ++ rest := by
  induction front generalizing before left with
  | nil => exact ⟨left, rfl⟩
  | cons c front ih =>
      simp only [holdsNoAria, Bool.and_eq_true, decide_eq_true_eq, Bool.not_eq_true'] at hFront
      obtain ⟨⟨⟨hAscii, hBlank⟩, hBegins⟩, hRest⟩ := hFront
      generalize hText : c :: front ++ text = whole at hCleaned
      cases hCleaned with
      | nil => cases hText
      | copy tail =>
          cases hText
          obtain ⟨rest, rfl⟩ := ih hRest tail
          exact ⟨rest, rfl⟩
      | @cut _ blank text' left' written cut' apart blanks name aria =>
          exfalso
          cases blank with
          | cons d blank =>
              have hD : c = d := (List.cons.inj hText).1
              simp [hD, blanks d (List.mem_cons_self ..)] at hBlank
          | nil =>
              obtain ⟨d, more, hName⟩ := List.exists_cons_of_ne_nil name.ne_nil
              simp only [WrittenAttribute.body, hName, List.nil_append, List.cons_append,
                List.cons.injEq] at hText
              obtain ⟨rfl, hText⟩ := hText
              rw [hName] at aria
              obtain ⟨hA, e, more, rfl, hR⟩ := Aria.head_of_isAriaName hAscii aria
              cases front with
              | nil => simp [hA] at hBegins
              | cons f front =>
                  have hF : f = e := (List.cons.inj hText).1
                  subst hF
                  simp only [holdsNoAria, Bool.and_eq_true, decide_eq_true_eq] at hRest
                  simp [hA, hR hRest.1.1.1] at hBegins

/-- Directly behind a blank that was copied, a label is copied. -/
theorem of_labelBody {rule : Rule} (hRule : rule ∈ Rule.all) {text left : List Char}
    {cut : List WrittenAttribute} (hCleaned : Cleaned (some ' ') (rule.labelBody ++ text) left cut) :
    ∃ rest, left = rule.labelBody ++ rest := by
  generalize hText : rule.labelBody ++ text = whole at hCleaned
  cases hCleaned with
  | nil => simp [Rule.labelBody] at hText
  | @copy _ c text' left' _ tail =>
      have hNoAria := Rule.holdsNoAria_tail hRule
      cases hBody : rule.labelBody with
      | nil => simp [Rule.labelBody] at hBody
      | cons d body =>
          rw [hBody] at hText hNoAria
          cases hText
          obtain ⟨rest, rfl⟩ := tail.of_holdsNoAria hNoAria
          exact ⟨rest, rfl⟩
  | cut apart => exact absurd (apart ' ' rfl) (by decide)

end Cleaned

namespace Labelled

/-- White space that labels were put into is copied, or its last blank begins a label. -/
theorem of_blank {inName : Bool} {blank rest text : List Char}
    (hBlank : ∀ c ∈ blank, isBlank c = true) (hLabelled : Labelled inName text (blank ++ rest)) :
    (∃ left flag, text = blank ++ left ∧ Labelled flag left rest) ∨
      ∃ init left later rule, rule ∈ Rule.all ∧ (∀ c ∈ init, isBlank c = true) ∧
        text = init ++ left ∧ rest = rule.labelBody ++ later ∧
        Stops continuesTagName left ∧ Labelled true left later := by
  induction blank generalizing inName text with
  | nil => exact .inl ⟨text, inName, rfl, hLabelled⟩
  | cons b blank ih =>
      have hRest := fun d hMem => hBlank d (List.mem_cons_of_mem _ hMem)
      generalize hText : b :: blank ++ rest = whole at hLabelled
      cases hLabelled with
      | nil => cases hText
      | copy tail =>
          cases hText
          rcases ih hRest tail with ⟨left, flag, rfl, hLeft⟩ |
            ⟨init, left, later, rule, hRule, hInit, rfl, hBody, hStops, hLater⟩
          · exact .inl ⟨left, flag, rfl, hLeft⟩
          · refine .inr ⟨b :: init, left, later, rule, hRule, ?_, rfl, hBody, hStops, hLater⟩
            intro d hMem
            rcases List.mem_cons.1 hMem with rfl | hMem
            · exact hBlank d (List.mem_cons_self ..)
            · exact hInit d hMem
      | @label rule _ later mem ends lacks tail =>
          rw [Rule.label_eq, List.cons_append, List.cons_append, List.cons.injEq] at hText
          cases blank with
          | nil => exact .inr ⟨[], text, later, rule, mem, by simp, rfl, hText.2, ends, tail⟩
          | cons d blank =>
              have hBody : d ∈ rule.labelBody := by
                obtain ⟨e, body, hCons⟩ : ∃ e body, rule.labelBody = e :: body :=
                  List.exists_cons_of_ne_nil (by simp [Rule.labelBody])
                rw [hCons] at hText ⊢
                rw [(List.cons.inj hText.2).1]
                exact List.mem_cons_self ..
              have hSolid := Rule.not_isBlank_of_mem_labelBody mem d hBody
              simp [hRest d (List.mem_cons_self ..)] at hSolid

/-- A name ends before what labels are put into where it ends before the labels. -/
theorem endsName {inName : Bool} {text labelled : List Char}
    (hLabelled : Labelled inName text labelled) (hStops : Stops continuesName labelled) :
    EndsName text := by
  cases hLabelled with
  | nil => exact .inl trivial
  | copy tail => exact .inl hStops
  | label mem ends =>
      cases text with
      | nil => exact .inl trivial
      | cons c text =>
          have hC : continuesTagName c = false := ends
          simp only [continuesTagName, Bool.not_eq_false', Bool.or_eq_true, decide_eq_true_eq] at hC
          rcases hC with ((((((rfl | rfl) | rfl) | rfl) | rfl) | rfl) | rfl) | rfl <;>
            first
            | exact .inr rfl
            | exact .inl rfl

end Labelled

/-- Behind a cut, a blank that follows is left as it is. -/
theorem Cleaned.keptApart_eq_self {before : Option Char} {text left : List Char}
    {cut : List WrittenAttribute} (hCleaned : Cleaned before (' ' :: text) left cut) :
    keptApart left = left := by
  generalize hText : ' ' :: text = whole at hCleaned
  cases hCleaned with
  | nil => cases hText
  | copy =>
      cases hText
      rfl
  | cut => exact keptApart_keptApart _

/-- A text that begins with a blank does so with labels in it too. -/
theorem Labelled.blank_cons {inName : Bool} {text labelled : List Char}
    (hLabelled : Labelled inName (' ' :: text) labelled) : ∃ rest, labelled = ' ' :: rest := by
  generalize hText : ' ' :: text = whole at hLabelled
  cases hLabelled with
  | nil => cases hText
  | copy =>
      cases hText
      exact ⟨_, rfl⟩
  | label => exact ⟨_, rfl⟩

/-- No label begins such a text, and none begins in white space before it. -/
theorem Unlabelled.label_append_ne {rule : Rule} (hRule : rule ∈ Rule.all)
    {text shift : List Char} (hLacks : Unlabelled rule text) (hEnds : Stops continuesTagName text)
    (hShift : ∀ c ∈ shift, isBlank c = true) (rest : List Char) :
    ' ' :: (rule.labelBody ++ rest) ≠ shift ++ text := by
  intro hText
  obtain ⟨e, body, hBody⟩ : ∃ e body, rule.labelBody = e :: body :=
    List.exists_cons_of_ne_nil (by simp [Rule.labelBody])
  have hMem : e ∈ rule.labelBody := by simp [hBody]
  rcases shift with - | ⟨b, - | ⟨d, shift⟩⟩
  · exact hLacks [] (by simp) rest (by simpa [Rule.labels, Rule.label_eq] using hText.symm)
  · have hSame : e :: (body ++ rest) = text := by
      rw [hBody] at hText
      exact (List.cons.inj hText).2
    rw [← hSame] at hEnds
    simp [Rule.continuesTagName_of_mem_labelBody hRule e hMem] at hEnds
  · rw [hBody] at hText
    have hD : e = d := (List.cons.inj (List.cons.inj hText).2).1
    have hBlank := hShift d (by simp)
    simp [← hD, Rule.not_isBlank_of_mem_labelBody hRule e hMem] at hBlank

/-- Where labels were put into a text and cutting out attributes leads back to it, only labels were
cut out. The shift is white space that went with a label and is made up for by white space that
stood behind the label. -/
theorem Cleaned.all_labels {before : Option Char} {labelled left : List Char}
    {cut : List WrittenAttribute} (hCleaned : Cleaned before labelled left cut)
    {shift text : List Char} {inName : Bool} (hShift : ∀ c ∈ shift, isBlank c = true)
    (hLeft : left = shift ++ text) (hLabelled : Labelled inName text labelled) :
    ∀ written ∈ cut, ∃ rule ∈ Rule.all, written.read = ⟨rule.attributeName, rule.value⟩ := by
  induction hCleaned generalizing shift text inName with
  | nil => simp
  | @copy before c labelled left cut tail ih =>
      generalize hWhole : c :: labelled = whole at hLabelled
      cases hLabelled with
      | nil => cases hWhole
      | @copy _ d text' labelled' front =>
          cases hWhole
          cases shift with
          | nil =>
              cases hLeft
              exact @ih [] _ _ (by simp) rfl front
          | cons b shift =>
              obtain ⟨rfl, rfl⟩ := List.cons.inj hLeft
              obtain ⟨hC, hRest⟩ := List.forall_mem_cons.1 hShift
              exact @ih (shift ++ [c]) _ _
                (List.forall_mem_append.2 ⟨hRest, List.forall_mem_singleton.2 hC⟩) (by simp) front
      | @label rule _ later mem ends lacks front =>
          rw [Rule.label_eq, List.cons_append, List.cons.injEq] at hWhole
          obtain ⟨rfl, rfl⟩ := hWhole
          obtain ⟨rest, rfl⟩ := tail.of_labelBody mem
          exact absurd hLeft (lacks.label_append_ne mem ends hShift rest)
  | @cut before blank labelled left written cut apart blanks name aria ends gone tail ih =>
      rcases hLabelled.of_blank blanks with ⟨rest, flag, rfl, hRest⟩ |
        ⟨init, rest, later, rule, hRule, hInit, rfl, hBody, hStops, hLater⟩
      · exfalso
        have hNoBlank : ' ' ∉ written.name := fun hMem =>
          absurd (not_isBlank_of_mem_name name hMem) (by decide)
        rw [WrittenAttribute.body, List.append_assoc] at hRest
        obtain ⟨behind, rfl, hBehind⟩ := hRest.of_append_right hNoBlank
        exact gone (shift ++ blank) behind (List.forall_mem_append.2 ⟨hShift, blanks⟩)
          (hBehind.endsName ends.stops_name) (by simp [hLeft])
      · obtain ⟨-, rfl, hRead⟩ := Rule.eq_label_of_body hRule name ends hBody
        have hBlanks : ∀ c ∈ shift ++ init, isBlank c = true :=
          List.forall_mem_append.2 ⟨hShift, hInit⟩
        have hRest : ∀ other ∈ cut, ∃ rule ∈ Rule.all,
            other.read = ⟨rule.attributeName, rule.value⟩ := by
          rw [← List.append_assoc] at hLeft
          rcases keptApart_eq left with hSame | hBlank
          · exact ih hBlanks (hSame ▸ hLeft) hLater
          · rw [hBlank] at hLeft
            cases hCons : shift ++ init with
            | nil =>
                rw [hCons, List.nil_append] at hLeft
                rw [← hLeft] at hLater
                obtain ⟨behind, rfl⟩ := hLater.blank_cons
                have hLength := congrArg List.length (hBlank.symm.trans tail.keptApart_eq_self)
                simp at hLength
            | cons b more =>
                rw [hCons] at hLeft hBlanks
                exact ih (fun c hMem => hBlanks c (List.mem_cons_of_mem _ hMem))
                  (List.cons.inj hLeft).2 hLater
        intro other hMem
        rcases List.mem_cons.1 hMem with rfl | hMem
        · exact ⟨rule, hRule, hRead⟩
        · exact hRest other hMem

/-- A dictionary has the values of its occurrences. -/
theorem Markup.mem_of_mem_dictionary {occurrences : List Attribute} {known : Attribute}
    (hMem : known ∈ dictionary occurrences) : known ∈ occurrences := by
  obtain ⟨name, hName, rfl⟩ := List.mem_map.1 hMem
  obtain ⟨other, hOther, rfl⟩ := List.mem_map.1 (List.mem_eraseDups.1 hName)
  cases hFind : occurrences.reverse.find? fun known => known.name = other.name with
  | none =>
      have hNone := List.find?_eq_none.1 hFind other (List.mem_reverse.2 hOther)
      simp at hNone
  | some last =>
      have hLast : last.name = other.name := by simpa using List.find?_some hFind
      rw [Option.map_some, Option.getD_some, ← hLast]
      exact List.mem_reverse.1 (List.mem_of_find?_eq_some hFind)

namespace Aria

/-- A tag with an invalid ARIA attribute loses one that is read with an invalid value. -/
theorem exists_removed {tokens : List Token} (hInvalid : ¬TagsValid tokens) :
    ∃ written ∈ removed tokens, isValid written.read.name (some written.read.value) = false := by
  simp only [TagsValid, not_forall] at hInvalid
  obtain ⟨token, hToken, tag, hContent, hNames⟩ := hInvalid
  obtain ⟨name, hName⟩ := List.exists_mem_of_ne_nil _ hNames
  obtain ⟨known, hKnown, hSame⟩ := List.mem_map.1 hName
  obtain ⟨hRead, hWrong⟩ := List.mem_filter.1 hKnown
  rw [OpenTag.readAttributes, foldl_addAttribute] at hRead
  obtain ⟨written, hWritten, rfl⟩ := List.mem_map.1 (mem_of_mem_dictionary hRead)
  refine ⟨written, List.mem_flatMap.2 ⟨token, hToken, ?_⟩, ?_⟩
  · rw [hContent]
    refine List.mem_filter.2 ⟨hWritten, List.contains_iff_mem.2 ?_⟩
    rw [← hSame] at hName
    exact hName
  · simp only [Bool.and_eq_true, Bool.not_eq_true'] at hWrong
    exact hWrong.2

theorem exists_read_of_clean {text out : List Char} (hClean : (clean text).outcome = .ok out) :
    ∃ document, Document.read text = .ok document := by
  simp only [clean, Logged.outcome_bind, Logged.outcome_ofOutcome] at hClean
  obtain ⟨document, hRead, -⟩ := bind_eq_ok_iff.1 hClean
  exact ⟨document, failWith_eq_ok_iff.1 hRead⟩

/-- What the gate accepts can be read. -/
theorem exists_read_of_gate {text : List Char} (hGate : gate text = .ok ()) :
    ∃ document, Document.read text = .ok document := by
  obtain ⟨document, hRead, -⟩ := bind_eq_ok_iff.1 hGate
  exact ⟨document, failWith_eq_ok_iff.1 hRead⟩

/-- The cleanup does not take all the labels back that were put into a text. -/
theorem eq_of_clean_labelled {text labelled : List Char} (hLabelled : Labelled false text labelled)
    (hClean : (clean labelled).outcome = .ok text) : labelled = text := by
  obtain ⟨document, hRead⟩ := exists_read_of_clean hClean
  have hValid : TagsValid (scan labelled).tokens := by
    by_contra hInvalid
    obtain ⟨hScans, -⟩ := Document.scans_of_read hRead
    have hCleaned := cleaned_rewriteTags hScans.tagsEnd none
    rw [clean_of_read hRead, Except.ok.injEq] at hClean
    rw [hScans.join, hClean] at hCleaned
    obtain ⟨written, hRemoved, hWrong⟩ := exists_removed hInvalid
    obtain ⟨rule, hRule, hSame⟩ :=
      @Cleaned.all_labels _ _ _ _ hCleaned [] _ _ (by simp) rfl hLabelled written hRemoved
    rw [hSame, Rule.isValid_label hRule] at hWrong
    simp at hWrong
  rw [(clean_eq_self_iff hRead).2 hValid, Except.ok.injEq] at hClean
  exact hClean

end Aria

/-- There are no edits exactly where there is nothing to edit. -/
theorem mapM_eq_ok_nil_iff {α β ε : Type} {work : α → Except ε β} {list : List α} :
    list.mapM work = .ok [] ↔ list = [] := by
  cases list with
  | nil => simp [pure, Except.pure]
  | cons item rest =>
      rw [List.mapM_cons]
      cases work item with
      | error fault => simp [bind, Except.bind]
      | ok found => cases rest.mapM work <;> simp [bind, Except.bind, pure, Except.pure]

namespace Rule

/-- No tag is left that the rule labels. -/
def Settled (rule : Rule) (text : List Char) : Prop :=
  match rule.finder with
  | .elements => ∃ document, Document.read text = .ok document ∧
      ∀ element ∈ document.elements, rule.selects element = false
  | .inputTags => ∀ placed ∈ inputTags text,
      hasAttribute placed.source rule.attributeName.toList = true

/-- A rule has no edits exactly where no tag is left that it labels. -/
theorem edits_eq_nil_iff {rule : Rule} {text : List Char} :
    rule.edits text = .ok [] ↔ rule.Settled text := by
  cases hFinder : rule.finder with
  | elements =>
      simp only [edits, Settled, hFinder]
      cases hRead : Document.read text with
      | error fault => simp [elementEdits, Aria.readDocument, hRead, failWith, bind, Except.bind]
      | ok document => simp [elementEdits, Aria.readDocument, hRead, mapM_eq_ok_nil_iff]
  | inputTags => simp [edits, Settled, hFinder, inputEdits, mapM_eq_ok_nil_iff]

/-- A rule that has no edits leaves the text as it is. -/
theorem apply_of_settled {rule : Rule} {text : List Char} (hSettled : rule.Settled text) :
    (rule.apply text).outcome = .ok text := by
  have hSplice : splice text [] = .ok text :=
    @splice_of_fitBetween text [] (Nat.zero_le _) (by simp)
  simp [apply, edits_eq_nil_iff.2 hSettled, hSplice]

end Rule

/-- The rules leave a text as it is exactly where none of them finds a tag to label. -/
theorem addLabels_eq_self_iff {rules : List Rule} (hRules : ∀ rule ∈ rules, rule ∈ Rule.all)
    {text : List Char} :
    (addLabels rules text).outcome = .ok text ↔ ∀ rule ∈ rules, rule.Settled text := by
  constructor
  · intro hAdd rule hMem
    obtain ⟨-, -, hNone⟩ := labelled_addLabels hRules hAdd
    exact Rule.edits_eq_nil_iff.1 (hNone (Nat.le_refl _) rule hMem)
  · intro hSettled
    induction rules with
    | nil => rfl
    | cons rule rest ih =>
        have hFirst := Rule.apply_of_settled (hSettled rule (List.mem_cons_self ..))
        have hRest := ih (fun other hMem => hRules other (List.mem_cons_of_mem _ hMem))
          fun other hMem => hSettled other (List.mem_cons_of_mem _ hMem)
        rw [addLabels, List.foldlM_cons, Logged.outcome_bind, hFirst]
        exact hRest

theorem Config.mem_all_of_mem_rules (config : Config) : ∀ rule ∈ config.rules, rule ∈ Rule.all :=
  fun _ hMem => (List.mem_filter.1 hMem).1

end AccessibleMarkup
