import AccessibleMarkup.Proofs.Beginnings

/-! What a rule that looks for elements leaves of a document. It is to give its attribute to the
elements that lack it and to change nothing else, and it does so where every tag is read as it was
and what only begins like a tag still does not end. A label brings two double quotes along, so what
can go wrong is that they close a quote which stands open before. -/
namespace AccessibleMarkup

open AccessibleMarkup.Markup
open AccessibleMarkup.Text

namespace Rule

/-- The text with labels has the tokens of the tags with labels exactly where every tag is read
where it stands and no beginning of a tag ends at last. -/
theorem scan_labelled_iff {rule : Rule} (hRule : rule ∈ all) {text : List Char}
    {document : Document} (hRead : Document.read text = .ok document) :
    scan (rewriteTags rule.labelTag (scan text).tokens ++ (scan text).dropped) =
        ⟨(scan text).tokens.map rule.labelToken, (scan text).dropped, none⟩ ↔
      TagsRemain rule.labelTag (scan text).dropped (scan text).tokens ∧
        BeginningsRemain rule.labelTag (scan text).dropped none (scan text).tokens := by
  obtain ⟨hScans, -⟩ := Document.scans_of_read hRead
  have hOpens := head?_labelTag rule
  have hLast : rule.label.getLast? = some '"' := by
    rw [label_eq, labelBody, ← List.cons_append, List.getLast?_concat]
  have hStay : HaltsStay rule.labelTag (scan text).dropped none (scan text).tokens ↔
      BeginningsRemain rule.labelTag (scan text).dropped none (scan text).tokens :=
    ⟨fun hStay => hStay.beginningsRemain hOpens hScans.tagsEnd,
      hScans.haltsStay (end_not_mem_label hRule) hLast hOpens fun tokens hSource =>
        putInto_rewriteTags hSource _⟩
  rw [tagsRemain_iff hRule hScans.tagsEnd, ← hStay]
  exact scan_rewritten_iff (name_changeTag rule) (selfClosed_changeTag rule) hOpens hRead

/-- Tags that are not selected are written as they were. -/
theorem beginningsRemain_of_reads {rule : Rule} {text : List Char} {document : Document}
    (hRead : Document.read text = .ok document) {front : List Token} {last : Option (List Char)}
    {left : List Char} (hFront : Reads none text front last left)
    (hBehind : ∀ token ∈ (scan text).tokens.drop front.length, ∀ tag,
      token.content = .openTag tag → rule.selectsTag tag = false) :
    BeginningsRemain rule.labelTag (scan text).dropped none (scan text).tokens := by
  obtain ⟨hScans, -⟩ := Document.scans_of_read hRead
  obtain ⟨behind, hTokens, hTail⟩ := hFront.scans_left hScans
  have hEnd := hScans.tagsEnd
  rw [hTokens] at hEnd
  rw [hTokens, List.drop_left] at hBehind
  rw [hTokens]
  refine HaltsStay.beginningsRemain (head?_labelTag rule) hEnd
    (hFront.haltsStay hTail.join fun token hMem tag hContent => ?_)
  rw [labelTag, hBehind token hMem tag hContent, if_neg (by simp),
    hTail.tagsEnd.source_of_openTag token hMem tag hContent]

/-- A rule that looks for elements goes through on a text that can be read. What it leaves has the
tokens of the text with labels in the selected tags exactly where every tag is read where it stands
and no beginning of a tag ends at last. There it writes the document of the text with the attribute
added to the elements that lacked it: no element, name, text or attribute is lost, added or changed
otherwise. The tags are read as they were wherever no double quote is left open, and the beginnings
of tags wherever all selected tags are in the part that the first pass reads. -/
theorem document_of_labelled {rule : Rule} (hRule : rule ∈ all) (hFinder : rule.finder = .elements)
    {text : List Char} {document : Document} (hRead : Document.read text = .ok document) :
    ∃ out, (rule.apply text).outcome = .ok out ∧
      (scan out = ⟨(scan text).tokens.map rule.labelToken, (scan text).dropped, none⟩ ↔
        TagsRemain rule.labelTag (scan text).dropped (scan text).tokens ∧
          BeginningsRemain rule.labelTag (scan text).dropped none (scan text).tokens) ∧
      (TagsRemain rule.labelTag (scan text).dropped (scan text).tokens →
        BeginningsRemain rule.labelTag (scan text).dropped none (scan text).tokens →
          ∃ again, Document.read out = .ok again ∧
            again.mapElements Element.placeless =
              document.mapElements fun element => (rule.labelElement element).placeless) ∧
      (¬ OpensQuote '"' text →
        TagsRemain rule.labelTag (scan text).dropped (scan text).tokens) ∧
      ∀ front last left, Reads none text front last left →
        (∀ token ∈ (scan text).tokens.drop front.length, ∀ tag, token.content = .openTag tag →
          rule.selectsTag tag = false) →
            BeginningsRemain rule.labelTag (scan text).dropped none (scan text).tokens := by
  obtain ⟨hScans, -⟩ := Document.scans_of_read hRead
  have hIff := scan_labelled_iff hRule hRead
  refine ⟨_, apply_of_read hFinder hRead, hIff, fun hTags hBeginnings => ?_, fun hClosed => ?_,
    fun front last left hFront => ?_⟩
  · exact Document.read_rewritten (retags_labelElement hRule) hRead (hIff.2 ⟨hTags, hBeginnings⟩)
  · exact tagsRemain_of_closed hRule hScans.tagsEnd (by rwa [hScans.join])
  · exact beginningsRemain_of_reads hRead hFront

/-- The button gets its label behind a quoted value, and nothing else changes. -/
theorem document_of_labelled_button :
    (buttons.apply "<p title=\"a>b\"><button/>".toList).outcome =
        .ok "<p title=\"a>b\"><button aria-label=\"button\"/>".toList ∧
      ∃ again, Document.read "<p title=\"a>b\"><button aria-label=\"button\"/>".toList = .ok again ∧
        again.mapElements Element.placeless =
          ⟨[.opened ⟨"p", [⟨"title", "a>b"⟩], none⟩,
            .opened ⟨"button", [⟨"aria-label", "button"⟩], none⟩, .closed "button", .closed "p"]⟩ := by
  have hRead : Document.read "<p title=\"a>b\"><button/>".toList =
      .ok ⟨[.opened ⟨"p", [⟨"title", "a>b"⟩], some ⟨1, 0⟩⟩, .opened ⟨"button", [], some ⟨1, 15⟩⟩,
        .closed "button", .closed "p"]⟩ := by decide +kernel
  obtain ⟨out, hApply, hIff, hDocument, -⟩ :=
    @document_of_labelled buttons (by decide) rfl _ _ hRead
  have hOut : out = "<p title=\"a>b\"><button aria-label=\"button\"/>".toList := by
    rw [apply_of_read rfl hRead, Except.ok.injEq] at hApply
    rw [← hApply]
    decide +kernel
  subst hOut
  obtain ⟨hTags, hBeginnings⟩ := hIff.1 (by decide +kernel)
  obtain ⟨again, hAgain, hSame⟩ := hDocument hTags hBeginnings
  exact ⟨hApply, again, hAgain, by rw [hSame]; decide +kernel⟩

/-- The label of the button closes a quote that was an attribute name before, and the button is
gone. -/
theorem labelled_button_is_lost :
    (buttons.apply "<a b= \"><button>".toList).outcome =
        .ok "<a b= \"><button aria-label=\"button\">".toList ∧
      ∃ document again, Document.read "<a b= \"><button>".toList = .ok document ∧
        Document.read "<a b= \"><button aria-label=\"button\">".toList = .ok again ∧
        document.elements.map (·.name) = ["a", "button"] ∧
        again.elements.map (·.name) = ["a"] ∧
        again.mapElements Element.placeless ≠
          document.mapElements fun element => (buttons.labelElement element).placeless := by
  have hRead : Document.read "<a b= \"><button>".toList =
      .ok ⟨[.opened ⟨"a", [⟨"b", ""⟩, ⟨"\"", ""⟩], some ⟨1, 0⟩⟩,
        .opened ⟨"button", [], some ⟨1, 8⟩⟩, .closed "button", .closed "a"]⟩ := by decide +kernel
  have hAgain : Document.read "<a b= \"><button aria-label=\"button\">".toList =
      .ok ⟨[.opened ⟨"a", [⟨"b", "><button aria-label="⟩, ⟨"button\"", ""⟩], some ⟨1, 0⟩⟩,
        .closed "a"]⟩ := by decide +kernel
  refine ⟨?_, _, _, hRead, hAgain, by decide +kernel, by decide +kernel, by decide +kernel⟩
  rw [apply_of_read rfl hRead]
  exact congrArg Except.ok (by decide +kernel)

end Rule

end AccessibleMarkup
