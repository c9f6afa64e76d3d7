import AccessibleMarkup.Proofs.Acceptance
import AccessibleMarkup.Proofs.Rewriting

/-! What the cleanup leaves of a document, and whether the gate accepts it. The cleanup is to take the
invalid ARIA attributes away from the elements and nothing else, and it does so where the text that
is left is read as it is meant: where the cuts close up in every tag, and what did not end before
still does not end. There the gate finds nothing to refuse. -/
namespace AccessibleMarkup

open AccessibleMarkup.Markup
open AccessibleMarkup.Text

namespace Markup

/-- An element has one attribute of a name. -/
structure Element.OneEach (element : Element) : Prop where
  eq : ∀ known ∈ element.attributes, ∀ other ∈ element.attributes,
    known.name = other.name → known = other

/-- Attributes of some names are added to each other as they are among all. -/
theorem filter_addAttribute (keep : String → Bool) (known : List Attribute) (added : Attribute) :
    (addAttribute known added).filter (fun other => keep other.name) =
      if keep added.name then addAttribute (known.filter fun other => keep other.name) added
      else known.filter fun other => keep other.name := by
  have hReplace : (known.map fun other => if other.name = added.name then added else other).filter
        (fun other => keep other.name) =
      (known.filter fun other => keep other.name).map fun other =>
        if other.name = added.name then added else other := by
    rw [List.filter_map]
    congr 1
    refine List.filter_congr fun other _ => ?_
    simp only [Function.comp_apply]
    split
    · rename_i hSame
      rw [hSame]
    · rfl
  cases hKeep : keep added.name with
  | true =>
      have hAny : (known.filter fun other => keep other.name).any
            (fun other => other.name = added.name) =
          known.any fun other => other.name = added.name := by
        rw [List.any_filter]
        congr 1
        funext other
        by_cases hSame : other.name = added.name
        · simp [hSame, hKeep]
        · simp [hSame]
      simp only [addAttribute, hAny, if_true]
      split
      · exact hReplace
      · simp [hKeep]
  | false =>
      simp only [addAttribute, Bool.false_eq_true, if_false]
      split
      · rw [hReplace]
        conv_rhs => rw [← List.map_id (known.filter fun other => keep other.name)]
        refine List.map_congr_left fun other hMem => if_neg fun hSame => ?_
        have hKept := (List.mem_filter.1 hMem).2
        rw [hSame, hKeep] at hKept
        simp at hKept
      · simp [hKeep]

/-- The attributes of a tag that have some of the names are read as they are among all. -/
theorem foldl_addAttribute_filter (keep : String → Bool) (occurrences : List Attribute) :
    (occurrences.filter fun other => keep other.name).foldl addAttribute [] =
      (occurrences.foldl addAttribute []).filter fun other => keep other.name := by
  induction occurrences using List.reverseRecOn with
  | nil => rfl
  | append_singleton occurrences added ih =>
      rw [List.filter_append, List.foldl_append, List.foldl_append, ih, List.foldl_cons,
        List.foldl_nil, filter_addAttribute]
      cases hKeep : keep added.name <;> simp [hKeep]

/-- A tag has one attribute of a name. -/
theorem eq_of_mem_readAttributes {tag : OpenTag} {known other : Attribute}
    (hKnown : known ∈ tag.readAttributes) (hOther : other ∈ tag.readAttributes)
    (hName : known.name = other.name) : known = other := by
  rw [OpenTag.readAttributes, foldl_addAttribute] at hKnown hOther
  obtain ⟨name, -, rfl⟩ := List.mem_map.1 hKnown
  obtain ⟨name', -, rfl⟩ := List.mem_map.1 hOther
  cases hName
  rfl

/-- An element opened by a tag has one attribute of a name. -/
theorem OpenTag.oneEach_element (tag : OpenTag) (position : Option Position) :
    (tag.element position).OneEach :=
  ⟨fun _ hKnown _ hOther => eq_of_mem_readAttributes hKnown hOther⟩

end Markup

namespace Aria

def isInvalid (known : Markup.Attribute) : Bool :=
  isAriaName known.name && !isValid known.name (some known.value)

def cleanElement (element : Element) : Element :=
  { element with attributes := element.attributes.filter fun known => !isInvalid known }

/-- The attributes that the cleanup cuts out of a tag are the invalid ones. -/
theorem contains_invalidNames {tag : OpenTag} {known : Markup.Attribute}
    (hKnown : known ∈ tag.readAttributes) :
    (invalidNames tag).contains known.name = isInvalid known := by
  rw [Bool.eq_iff_iff, List.contains_iff_mem]
  constructor
  · intro hName
    obtain ⟨other, hOther, hSame⟩ := List.mem_map.1 hName
    obtain ⟨hMem, hInvalid⟩ := List.mem_filter.1 hOther
    rw [← eq_of_mem_readAttributes hMem hKnown hSame]
    exact hInvalid
  · intro hInvalid
    exact List.mem_map_of_mem (List.mem_filter.2 ⟨hKnown, hInvalid⟩)

/-- A cleaned tag has the attributes of the tag that are not invalid. -/
theorem readAttributes_without (tag : OpenTag) :
    (tag.without (cuts tag)).readAttributes =
      tag.readAttributes.filter fun known => !isInvalid known := by
  rw [OpenTag.readAttributes, map_read_without,
    foldl_addAttribute_filter fun name => !(invalidNames tag).contains name]
  exact List.filter_congr fun known hKnown => by rw [contains_invalidNames hKnown]

/-- Taking the invalid attributes out of tags takes them from the elements. -/
theorem retags_cleanElement : Retags (fun tag => tag.without (cuts tag)) cleanElement where
  name tag := OpenTag.name_without tag _
  selfClosed tag := OpenTag.selfClosed_without tag _
  element tag position := by
    rw [OpenTag.element, OpenTag.name_without, readAttributes_without]
    rfl
  values tag written hMem := by
    rw [OpenTag.attributes_without] at hMem
    exact .inr (@forall_mem_keepFrom _ tag.attributes
      (fun written => ∃ old ∈ tag.attributes, old.value? = written.value?)
      (fun _ _ hOld => hOld) (fun old hOld => ⟨old, hOld, rfl⟩) _ written hMem)

/-- The text that the cleanup leaves has the tokens of the tags without the invalid attributes
exactly where the cuts close up and the first pass halts as before. -/
theorem scan_cleaned_iff_closes {text : List Char} {document : Document}
    (hRead : Document.read text = .ok document) :
    scan (rewriteTags cleanTag (scan text).tokens ++ (scan text).dropped) =
        ⟨(scan text).tokens.map cleanToken, (scan text).dropped, none⟩ ↔
      TagsClose (scan text).dropped (scan text).tokens ∧
        HaltsStay cleanTag (scan text).dropped none (scan text).tokens := by
  obtain ⟨hScans, -⟩ := Document.scans_of_read hRead
  rw [tagsClose_iff hScans.tagsEnd]
  exact scan_rewritten_iff (fun tag => OpenTag.name_without tag (cuts tag))
    (fun tag => OpenTag.selfClosed_without tag (cuts tag)) head?_cleanTag hRead

/-- The first pass halts as before wherever all tags that lose attributes are in the part that it
reads. -/
theorem haltsStay_cleanTag {text left : List Char} {document : Document}
    (hRead : Document.read text = .ok document) {front : List Token} {last : Option (List Char)}
    (hFront : Reads none text front last left)
    (hValid : TagsValid ((scan text).tokens.drop front.length)) :
    HaltsStay cleanTag (scan text).dropped none (scan text).tokens := by
  obtain ⟨hScans, -⟩ := Document.scans_of_read hRead
  obtain ⟨behind, hTokens, hTail⟩ := hFront.scans_left hScans
  rw [hTokens, List.drop_left] at hValid
  rw [hTokens]
  refine hFront.haltsStay hTail.join fun token hMem tag hContent => ?_
  rw [cleanTag_eq_source (hValid token hMem tag hContent),
    hTail.tagsEnd.source_of_openTag token hMem tag hContent]

/-- Where every cut closes up and the first pass halts as before, the text that the cleanup leaves
can be read, and no tag in it carries an invalid ARIA attribute. -/
theorem tagsValid_cleaned {text : List Char} {document : Document}
    (hRead : Document.read text = .ok document)
    (hCloses : TagsClose (scan text).dropped (scan text).tokens)
    (hStay : HaltsStay cleanTag (scan text).dropped none (scan text).tokens) :
    ∃ again, Document.read
        (rewriteTags cleanTag (scan text).tokens ++ (scan text).dropped) = .ok again ∧
      TagsValid (scan (rewriteTags cleanTag (scan text).tokens ++ (scan text).dropped)).tokens := by
  have hScan := (scan_cleaned_iff_closes hRead).2 ⟨hCloses, hStay⟩
  obtain ⟨again, hAgain, -⟩ := Document.read_rewritten retags_cleanElement hRead hScan
  refine ⟨again, hAgain, ?_⟩
  rw [hScan]
  exact tagsValid_map_cleanToken _

/-- What the cleanup leaves has the tokens of the text with the invalid attributes gone from its
tags exactly where the cuts close up and what did not end still does not end. There the gate accepts
it, a second cleanup changes nothing, and an enhancement that comes to this text returns it and is
not refused. The first pass halts as before wherever all tags that lose attributes are in the part
that it reads. -/
theorem gate_of_cleaned {text out : List Char} {document : Document}
    (hRead : Document.read text = .ok document) (hClean : (clean text).outcome = .ok out) :
    (scan out = ⟨(scan text).tokens.map cleanToken, (scan text).dropped, none⟩ ↔
        TagsClose (scan text).dropped (scan text).tokens ∧
          HaltsStay cleanTag (scan text).dropped none (scan text).tokens) ∧
      (TagsClose (scan text).dropped (scan text).tokens →
        HaltsStay cleanTag (scan text).dropped none (scan text).tokens →
          gate out = .ok () ∧ (clean out).outcome = .ok out ∧
            ∀ config source, Utf8.byteLength source ≤ maxSize →
              (addLabels config.rules source).outcome = .ok text →
                enhance config source = .ok out) ∧
      ∀ front last left, Reads none text front last left →
        TagsValid ((scan text).tokens.drop front.length) →
          HaltsStay cleanTag (scan text).dropped none (scan text).tokens := by
  have hOut := hClean
  rw [clean_of_read hRead, Except.ok.injEq] at hOut
  subst hOut
  refine ⟨scan_cleaned_iff_closes hRead, fun hCloses hStay => ?_,
    fun front last left hFront hValid => haltsStay_cleanTag hRead hFront hValid⟩
  obtain ⟨again, hAgain, hTags⟩ := tagsValid_cleaned hRead hCloses hStay
  have hGate := (gate_eq_ok_iff hAgain).2 hTags
  exact ⟨hGate, (clean_eq_self_iff hAgain).2 hTags, fun config source hSize hAdd =>
    enhance_eq_ok_iff.2 ⟨hSize, text, hAdd, hClean, hGate⟩⟩

/-- Without a slash behind the cut, the value before it stays what it was. -/
theorem gate_of_cleaned_paragraph :
    gate "<p aria-hidden=true>".toList = .ok () ∧
      (clean "<p aria-hidden=true>".toList).outcome = .ok "<p aria-hidden=true>".toList ∧
      enhance .standard "<p aria-hidden=true aria-foo>".toList =
        .ok "<p aria-hidden=true>".toList := by
  let tag : OpenTag :=
    { name := ['p']
      gap := [' ']
      attributes := [⟨"aria-hidden".toList, some ⟨['='], .bare "true".toList⟩, [' ']⟩,
        ⟨"aria-foo".toList, none, []⟩]
      selfClosed := false }
  have hScan : scan "<p aria-hidden=true aria-foo>".toList =
      ⟨[⟨.openTag tag, tag.source⟩], [], none⟩ := by decide +kernel
  have hRead : Document.read "<p aria-hidden=true aria-foo>".toList =
      .ok ⟨[.opened ⟨"p", [⟨"aria-hidden", "true"⟩, ⟨"aria-foo", ""⟩], some ⟨1, 0⟩⟩,
        .closed "p"]⟩ := by decide +kernel
  have hClean : (clean "<p aria-hidden=true aria-foo>".toList).outcome =
      .ok "<p aria-hidden=true>".toList := by
    rw [clean_of_read hRead]
    exact congrArg Except.ok (by decide +kernel)
  have hAdd : (addLabels Config.standard.rules "<p aria-hidden=true aria-foo>".toList).outcome =
      .ok "<p aria-hidden=true aria-foo>".toList := eq_ok_of_toOption (by decide +kernel)
  obtain ⟨hIff, hAccepts, -⟩ := gate_of_cleaned hRead hClean
  obtain ⟨hCloses, hStay⟩ := hIff.1 (by rw [hScan]; decide +kernel)
  obtain ⟨hGate, hAgain, hEnhance⟩ := hAccepts hCloses hStay
  exact ⟨hGate, hAgain, hEnhance .standard _ (by decide +kernel) hAdd⟩

/-- The slash that is left behind the cut becomes a part of the value before it, and the gate
refuses the value. A second cleanup takes the attribute away. -/
theorem gate_refuses_cleaned :
    (clean "<p aria-hidden=true aria-foo/>".toList).outcome = .ok "<p aria-hidden=true/>".toList ∧
      gate "<p aria-hidden=true/>".toList ≠ .ok () ∧
      (clean "<p aria-hidden=true/>".toList).outcome = .ok "<p>".toList := by
  have hRead : Document.read "<p aria-hidden=true aria-foo/>".toList =
      .ok ⟨[.opened ⟨"p", [⟨"aria-hidden", "true"⟩, ⟨"aria-foo", ""⟩], some ⟨1, 0⟩⟩,
        .closed "p"]⟩ := by decide +kernel
  have hAgain : Document.read "<p aria-hidden=true/>".toList =
      .ok ⟨[.opened ⟨"p", [⟨"aria-hidden", "true/"⟩], some ⟨1, 0⟩⟩, .closed "p"]⟩ := by
    decide +kernel
  have hSecond : (clean "<p aria-hidden=true/>".toList).outcome = .ok "<p>".toList := by
    rw [clean_of_read hAgain]
    exact congrArg Except.ok (by decide +kernel)
  refine ⟨?_, ?_, hSecond⟩
  · rw [clean_of_read hRead]
    exact congrArg Except.ok (by decide +kernel)
  · intro hGate
    have hSame := (clean_eq_self_iff hAgain).2 ((gate_eq_ok_iff hAgain).1 hGate)
    rw [hSecond] at hSame
    simp at hSame

/-- Cuts that close up are not enough. What is left before the cut may be the end of a comment that
did not end before, and then a tag is read that was plain text when the cleanup decided. -/
theorem gate_refuses_closed_cuts :
    TagsClose (scan "<!-- > <p -- aria-foo> &# ; <b aria-foo>".toList).dropped
        (scan "<!-- > <p -- aria-foo> &# ; <b aria-foo>".toList).tokens ∧
      (clean "<!-- > <p -- aria-foo> &# ; <b aria-foo>".toList).outcome =
        .ok "<!-- > <p --> &# ; <b aria-foo>".toList ∧
      gate "<!-- > <p --> &# ; <b aria-foo>".toList ≠ .ok () := by
  let tag : OpenTag :=
    { name := ['p']
      gap := [' ']
      attributes := [⟨"--".toList, none, [' ']⟩, ⟨"aria-foo".toList, none, []⟩]
      selfClosed := false }
  have hScan : scan "<!-- > <p -- aria-foo> &# ; <b aria-foo>".toList =
      ⟨[⟨.text, "<!-- >".toList⟩, ⟨.text, [' ']⟩, ⟨.openTag tag, tag.source⟩, ⟨.text, [' ']⟩,
        ⟨.text, "&#".toList⟩, ⟨.text, " ; <b aria-foo>".toList⟩], [], none⟩ := by decide +kernel
  have hLeft : scan "<p --> &# ; <b aria-foo>".toList =
      ⟨[cleanToken ⟨.openTag tag, tag.source⟩, ⟨.text, [' ']⟩, ⟨.text, "&#".toList⟩,
        ⟨.text, " ; ".toList⟩, ⟨.openTag ⟨['b'], [' '], [⟨"aria-foo".toList, none, []⟩], false⟩,
          "<b aria-foo>".toList⟩], [], none⟩ := by decide +kernel
  have hRefused : (gate "<!-- > <p --> &# ; <b aria-foo>".toList).toOption = none := by
    decide +kernel
  refine ⟨?_, eq_ok_of_toOption (by decide +kernel), fun hGate => ?_⟩
  · have hLater : ∀ token : Token, token.content = .text →
        ∀ left, ∀ tag, (cleanToken token).content = .openTag tag →
          (cleanToken token).source = tag.source ∧ tag.Ends left := by
      intro token hText left tag hContent
      simp [cleanToken, Token.rewrite, hText] at hContent
    have hTag := (scans_of_scanOnto hLeft).tagsEnd.1
    rw [hScan]
    exact (tagsClose_iff (scans_of_scanOnto hScan).tagsEnd).2 ⟨hLater _ rfl _, hLater _ rfl _,
      hTag, hLater _ rfl _, hLater _ rfl _, hLater _ rfl _, trivial⟩
  · rw [hGate] at hRefused
    cases hRefused

/-- What the cleanup leaves has the tokens of the text with the invalid attributes gone from its
tags exactly where the cuts close up and what did not end still does not end. There it writes the
document of the text with the invalid ARIA attributes gone from its elements: no element, name, text
or other attribute is lost, added or changed. The first pass halts as before wherever all tags that
lose attributes are in the part that it reads. -/
theorem document_of_cleaned {text out : List Char} {document : Document}
    (hRead : Document.read text = .ok document) (hClean : (clean text).outcome = .ok out) :
    (scan out = ⟨(scan text).tokens.map cleanToken, (scan text).dropped, none⟩ ↔
        TagsClose (scan text).dropped (scan text).tokens ∧
          HaltsStay cleanTag (scan text).dropped none (scan text).tokens) ∧
      (TagsClose (scan text).dropped (scan text).tokens →
        HaltsStay cleanTag (scan text).dropped none (scan text).tokens →
          ∃ again, Document.read out = .ok again ∧
            again.mapElements Element.placeless =
              document.mapElements fun element => (cleanElement element).placeless) ∧
      ∀ front last left, Reads none text front last left →
        TagsValid ((scan text).tokens.drop front.length) →
          HaltsStay cleanTag (scan text).dropped none (scan text).tokens := by
  rw [clean_of_read hRead, Except.ok.injEq] at hClean
  subst hClean
  have hIff := scan_cleaned_iff_closes hRead
  refine ⟨hIff, fun hCloses hStay => ?_,
    fun front last left hFront hValid => haltsStay_cleanTag hRead hFront hValid⟩
  exact Document.read_rewritten retags_cleanElement hRead (hIff.2 ⟨hCloses, hStay⟩)

/-- An attribute between two others is cut out, and both keep their values. -/
theorem document_of_cleaned_paragraph :
    ∃ again, Document.read "<p class=a lang=en>".toList = .ok again ∧
      again.mapElements Element.placeless =
        ⟨[.opened ⟨"p", [⟨"class", "a"⟩, ⟨"lang", "en"⟩], none⟩, .closed "p"]⟩ := by
  let tag : OpenTag :=
    { name := ['p']
      gap := [' ']
      attributes := [⟨"class".toList, some ⟨['='], .bare ['a']⟩, [' ']⟩,
        ⟨"aria-foo".toList, some ⟨['='], .bare ['b']⟩, [' ']⟩,
        ⟨"lang".toList, some ⟨['='], .bare "en".toList⟩, []⟩]
      selfClosed := false }
  have hScan : scan "<p class=a aria-foo=b lang=en>".toList =
      ⟨[⟨.openTag tag, tag.source⟩], [], none⟩ := by decide +kernel
  have hRead : Document.read "<p class=a aria-foo=b lang=en>".toList =
      .ok ⟨[.opened ⟨"p", [⟨"class", "a"⟩, ⟨"aria-foo", "b"⟩, ⟨"lang", "en"⟩], some ⟨1, 0⟩⟩,
        .closed "p"]⟩ := by
    rw [Document.read_eq_ok_iff, hScan]
    decide +kernel
  have hClean : (clean "<p class=a aria-foo=b lang=en>".toList).outcome =
      .ok "<p class=a lang=en>".toList := by
    rw [clean_of_read hRead, hScan]
    exact congrArg Except.ok (by decide +kernel)
  obtain ⟨hIff, hDocument, -⟩ := document_of_cleaned hRead hClean
  obtain ⟨hClose, hStay⟩ := hIff.1 (by rw [hScan]; decide +kernel)
  obtain ⟨again, hAgain, hSame⟩ := hDocument hClose hStay
  exact ⟨again, hAgain, by rw [hSame]; decide +kernel⟩

/-- The slash that is left behind the cut becomes a part of the source of the image. -/
theorem cleaned_image_changes_source :
    (clean "<img src=a aria-foo/>".toList).outcome = .ok "<img src=a/>".toList ∧
      ∃ document again, Document.read "<img src=a aria-foo/>".toList = .ok document ∧
        Document.read "<img src=a/>".toList = .ok again ∧
        document.elements.map (·.value? "src") = [some "a"] ∧
        again.elements.map (·.value? "src") = [some "a/"] ∧
        again.mapElements Element.placeless ≠
          document.mapElements fun element => (cleanElement element).placeless := by
  have hRead : Document.read "<img src=a aria-foo/>".toList =
      .ok ⟨[.opened ⟨"img", [⟨"src", "a"⟩, ⟨"aria-foo", ""⟩], some ⟨1, 0⟩⟩, .closed "img"]⟩ := by
    decide +kernel
  have hAgain : Document.read "<img src=a/>".toList =
      .ok ⟨[.opened ⟨"img", [⟨"src", "a/"⟩], some ⟨1, 0⟩⟩, .closed "img"]⟩ := by
    decide +kernel
  refine ⟨?_, _, _, hRead, hAgain, by decide +kernel, by decide +kernel, by decide +kernel⟩
  rw [clean_of_read hRead]
  exact congrArg Except.ok (by decide +kernel)

end Aria

end AccessibleMarkup
