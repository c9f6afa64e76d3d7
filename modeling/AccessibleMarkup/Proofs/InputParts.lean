import AccessibleMarkup.Proofs.Beginnings
import AccessibleMarkup.Proofs.InputTags

/-! Where in a text the tag of an input seems to begin. A tag is made of parts that separators stand
between, and whether the tag of an input seems to begin in a part does not hang on what is around it.
So in tags that are written anew, nothing looks like the tag of an input that did not before, as long
as the new parts are plain. -/
namespace AccessibleMarkup

open AccessibleMarkup.Markup
open AccessibleMarkup.Text

/-- Nothing that looks like the tag of an input begins in a text before `behind`. -/
def NoInputBegins (text behind : List Char) : Prop :=
  ∀ front rest, text = front ++ '<' :: rest → inputTagAfter? (rest ++ behind) = none

/-- Whatever looks like the tag of an input is the whole of one: it begins where the tag of an input
begins, and this ends with its first `>`. -/
def InputTagsWhole (dropped : List Char) : List Token → Prop
  | [] => NoInputBegins dropped []
  | token :: rest =>
    (NoInputBegins token.source (rest.flatMap Token.source ++ dropped) ∨
      ∃ tag body, token.content = .openTag tag ∧
        String.ofList (lowercase tag.name) = Rule.inputs.tag ∧
          tag.source = body ++ ['>'] ∧ '>' ∉ body) ∧
      InputTagsWhole dropped rest

/-- The search passes over a text in which nothing that looks like the tag of an input begins. -/
theorem NoInputBegins.inputTagsOnto_append {text behind : List Char}
    (hNone : NoInputBegins text behind) (offset : Nat) :
    inputTagsOnto [] offset (text ++ behind) = inputTagsOnto [] (offset + text.length) behind := by
  induction text generalizing offset with
  | nil => rfl
  | cons c text ih =>
      have hRest : NoInputBegins text behind := fun front rest hText =>
        hNone (c :: front) rest (by rw [hText, List.cons_append])
      have hHere : c = '<' → inputTagAfter? (text ++ behind) = none := fun hOpen =>
        hNone [] text (by rw [hOpen, List.nil_append])
      rw [List.cons_append, FindsInputs.eq (.pass hHere (findsInputs_inputTagsOnto _ _)), ih hRest,
        List.length_cons, Nat.add_assoc, Nat.add_comm 1]

/-- The search takes the whole tag of an input that has no other end. -/
theorem inputTagsOnto_tag {tag : OpenTag} {behind body : List Char} (hEnds : tag.Ends behind)
    (hName : String.ofList (lowercase tag.name) = Rule.inputs.tag)
    (hSource : tag.source = body ++ ['>']) (hBody : '>' ∉ body) (offset : Nat) :
    inputTagsOnto [] offset (tag.source ++ behind) =
      ⟨offset, tag.source⟩ :: inputTagsOnto [] (offset + tag.source.length) behind := by
  obtain ⟨found, hFound⟩ := inputTagAfter?_of_ends hEnds hName
  cases body with
  | nil => simp [OpenTag.source] at hSource
  | cons c body =>
      obtain ⟨rfl, hTail⟩ := List.cons.inj hSource
      have hText : tag.sourceTail ++ behind = body ++ '>' :: behind := by
        rw [hTail]
        exact List.append_assoc body ['>'] behind
      have hLooks := inputTagAfter?_of_isSome (fun hMem => hBody (List.mem_cons_of_mem _ hMem))
        (by rw [← hText, hFound]; rfl)
      rw [hSource, List.cons_append, List.cons_append, List.append_assoc]
      exact FindsInputs.eq (.tag hLooks (findsInputs_inputTagsOnto _ behind))

/-- Where whatever looks like the tag of an input is the whole of one, tags of inputs are all that
is found. -/
theorem InputTagsWhole.isInputTag {dropped : List Char} {tokens : List Token}
    (hWhole : InputTagsWhole dropped tokens) (hEnd : TagsEnd dropped tokens) (before : List Char) :
    ∀ placed ∈ inputTagsOnto [] before.length (tokens.flatMap Token.source ++ dropped),
      IsInputTag (openings before tokens) placed := by
  induction tokens generalizing before with
  | nil =>
      have hNone : inputTagsOnto [] before.length (dropped ++ []) = [] := by
        rw [NoInputBegins.inputTagsOnto_append hWhole]
        simp [inputTagsOnto]
      rw [List.append_nil] at hNone
      simp [hNone]
  | cons token rest ih =>
      have hRest := ih hWhole.2 hEnd.2 (before ++ token.source)
      rw [List.length_append] at hRest
      have hBehind : ∀ opening ∈ openings (before ++ token.source) rest,
          opening ∈ openings before (token :: rest) := by
        intro opening hMem
        rw [openings]
        split
        · exact List.mem_cons_of_mem _ hMem
        · exact hMem
      rw [List.flatMap_cons, List.append_assoc]
      rcases hWhole.1 with hNone | ⟨tag, body, hContent, hName, hSource, hBody⟩
      · rw [hNone.inputTagsOnto_append]
        intro placed hMem
        obtain ⟨opening, hOpening, hTag⟩ := hRest placed hMem
        exact .intro opening (hBehind opening hOpening) hTag
      · obtain ⟨hTag, hEnds⟩ := hEnd.1 tag hContent
        rw [hTag] at hRest ⊢
        rw [inputTagsOnto_tag hEnds hName hSource hBody]
        intro placed hMem
        rcases List.mem_cons.1 hMem with rfl | hMem
        · refine .intro ⟨before, tag⟩ ?_ hName
          rw [openings_cons_openTag before rest hContent]
          exact List.mem_cons_self ..
        · obtain ⟨opening, hOpening, hInput⟩ := hRest placed hMem
          rw [← hTag] at hOpening
          exact .intro opening (hBehind opening hOpening) hInput

/-- The name of an input begins with an I, which has two forms beyond the ASCII letters. -/
theorem firstLetter_of_inputWord {c : Char} {text rest : List Char}
    (hFound : afterWord? "input".toList (c :: text) = some rest) :
    c.toLower = 'i' ∨ c = '\u0130' ∨ c = '\u0131' := by
  have hWord : "input".toList = 'i' :: "nput".toList := rfl
  have hMatches : matchesLetter 'i' c = true := by
    by_contra hNot
    rw [hWord, afterWord?, if_neg hNot] at hFound
    cases hFound
  simpa [matchesLetter] using hMatches

/-- A word holds only characters that some letter of it stands for. -/
theorem read_of_afterWord? {mark : Char} {word text rest : List Char}
    (hMark : word.any (fun letter => matchesLetter letter mark) = false)
    (hFound : afterWord? word text = some rest) :
    ∃ read, text = read ++ rest ∧ mark ∉ read ∧
      ∀ other, afterWord? word (read ++ other) = some other := by
  induction word generalizing text with
  | nil =>
      cases hFound
      exact ⟨[], rfl, by simp, fun other => rfl⟩
  | cons letter word ih =>
      cases text with
      | nil => simp [afterWord?] at hFound
      | cons c text =>
          rw [afterWord?] at hFound
          split at hFound
          · rename_i hMatches
            obtain ⟨hLetter, hWord⟩ := Bool.or_eq_false_iff.1 hMark
            obtain ⟨read, rfl, hRead, hAgain⟩ := ih hWord hFound
            refine ⟨c :: read, rfl, ?_, fun other => ?_⟩
            · intro hMem
              rcases List.mem_cons.1 hMem with rfl | hMem
              · exact absurd (hMatches.symm.trans hLetter) (by decide)
              · exact hRead hMem
            · rw [List.cons_append, afterWord?, if_pos hMatches]
              exact hAgain other
          · simp at hFound

/-- What looks like the tag of an input, in the terms of its parts. -/
theorem inputTagAfter?_isSome_iff {text : List Char} :
    (inputTagAfter? text).isSome = true ↔ '>' ∈ text ∧ ∃ read c rest, text = read ++ c :: rest ∧
      '<' ∉ read ∧ ' ' ∉ read ∧ (isBlank c || c = '/' || c = '>') = true ∧
        ∀ other, afterWord? "input".toList (read ++ other) = some other := by
  have hMark (mark : Char) (hPlain : mark = '<' ∨ mark = ' ') :
      "input".toList.any (fun letter => matchesLetter letter mark) = false := by
    rcases hPlain with rfl | rfl <;> decide
  unfold inputTagAfter?
  constructor
  · intro hSome
    split at hSome
    · rename_i c rest hFound
      split at hSome
      · rename_i hBehind
        obtain ⟨read, hText, hOpen, hAgain⟩ := read_of_afterWord? (hMark '<' (.inl rfl)) hFound
        obtain ⟨read', hText', hBlank, -⟩ := read_of_afterWord? (hMark ' ' (.inr rfl)) hFound
        obtain rfl : read = read' := List.append_cancel_right (hText.symm.trans hText')
        refine ⟨?_, read, c, rest, hText, hOpen, hBlank, hBehind, hAgain⟩
        by_contra hEnd
        rw [splitAtFirst?_eq_none_iff.2 hEnd] at hSome
        simp at hSome
      · simp at hSome
    · simp at hSome
  · rintro ⟨hEnd, read, c, rest, rfl, -, -, hBehind, hAgain⟩
    cases hSplit : splitAtFirst? '>' (read ++ c :: rest) with
    | none => exact absurd hEnd (splitAtFirst?_eq_none_iff.1 hSplit)
    | some found => simp only [hAgain, hBehind, if_true, Option.map_some, Option.isSome_some]

/-- What looks like the tag of an input is seen before the next tag begins, so it is not found where
only the tags behind are written anew. -/
theorem inputTagAfter?_eq_none_of_rewriteTags {write : OpenTag → List Char}
    (hOpens : ∀ tag, (write tag).head? = some '<') {tokens : List Token} {rest dropped : List Char}
    (hSource : ∀ token ∈ tokens, ∀ tag, token.content = .openTag tag → token.source = tag.source)
    (hNone : inputTagAfter? (rest ++ (tokens.flatMap Token.source ++ dropped)) = none) :
    inputTagAfter? (rest ++ (rewriteTags write tokens ++ dropped)) = none := by
  rw [← Option.not_isSome_iff_eq_none] at hNone ⊢
  refine fun hSome => hNone ?_
  rw [inputTagAfter?_isSome_iff] at hSome ⊢
  obtain ⟨hEnd, read, c, later, hText, hOpen, hBlank, hBehind, hAgain⟩ := hSome
  constructor
  · by_contra hPlain
    have hSame := @rewriteTags_plain write tokens hSource '>' OpenTag.end_mem_source fun hMem =>
      hPlain (by simp [hMem])
    rw [hSame] at hEnd
    exact hPlain hEnd
  · have hC : c ≠ '<' := by
      rintro rfl
      exact absurd hBehind (by decide)
    have hPiece : '<' ∉ read ++ [c] := by simp [hOpen, hC.symm]
    have hJoin : rest ++ (rewriteTags write tokens ++ dropped) = (read ++ [c]) ++ later := by
      rw [hText, List.append_assoc, List.singleton_append]
    rcases List.append_eq_append_iff.1 hJoin with ⟨left, hLeft, hTags⟩ | ⟨left, rfl, hTags⟩
    · rw [hLeft] at hPiece
      obtain ⟨behind, hOld, -⟩ := rewriteTags_front hSource hOpens
        (fun hMem => hPiece (List.mem_append_right _ hMem)) hTags
      refine ⟨read, c, behind, ?_, hOpen, hBlank, hBehind, hAgain⟩
      rw [hOld, ← List.append_assoc, ← hLeft, List.append_assoc, List.singleton_append]
    · exact ⟨read, c, left ++ (tokens.flatMap Token.source ++ dropped), by simp, hOpen, hBlank,
        hBehind, hAgain⟩

/-- Nothing begins to look like the tag of an input where only the tags behind are written anew. -/
theorem NoInputBegins.rewriteTags {write : OpenTag → List Char}
    (hOpens : ∀ tag, (write tag).head? = some '<') {tokens : List Token} {text dropped : List Char}
    (hSource : ∀ token ∈ tokens, ∀ tag, token.content = .openTag tag → token.source = tag.source)
    (hNone : NoInputBegins text (tokens.flatMap Token.source ++ dropped)) :
    NoInputBegins text (Markup.rewriteTags write tokens ++ dropped) :=
  fun front rest hText =>
    inputTagAfter?_eq_none_of_rewriteTags hOpens hSource (hNone front rest hText)

namespace Rule

section
variable {rule : Rule} (hRule : rule ∈ all)
include hRule

/-- The name of a tag that the rule works on is the word that the rule looks for, in either case. -/
theorem map_toLower_name {name : List Char} (hName : String.ofList (lowercase name) = rule.tag) :
    (∀ c ∈ name, c.toNat < 0x80) ∧ name.map Char.toLower = rule.tag.toList := by
  have hWord : ∀ rule ∈ all, rule.tag.toList.all isOwnLower = true := by decide
  have hLower : lowercase name = rule.tag.toList := by
    rw [← hName, String.toList_ofList]
  exact map_toLower_of_lowercaseOnto (hWord rule hRule) hLower

/-- The name of a tag that a rule looks for holds no `<`. -/
theorem open_not_mem_name {name : List Char} (hName : String.ofList (lowercase name) = rule.tag) :
    '<' ∉ name := by
  have hTag : ∀ rule ∈ all, '<' ∉ rule.tag.toList := by decide
  intro hMem
  refine hTag rule hRule ?_
  rw [← (map_toLower_name hRule hName).2]
  exact List.mem_map_of_mem (f := Char.toLower) hMem

/-- The search for the name of an input stays away from the names of other elements. -/
theorem eq_inputs_of_afterWord? {name : List Char}
    (hName : String.ofList (lowercase name) = rule.tag) {rest left : List Char}
    (hFound : afterWord? "input".toList (name ++ rest) = some left) : rule = inputs := by
  obtain ⟨hAscii, hWord⟩ := map_toLower_name hRule hName
  have hFirst : ∀ rule ∈ all, rule.tag.toList.head? = some 'i' → rule = inputs := by decide
  have hNonempty : ∀ rule ∈ all, rule.tag.toList ≠ [] := by decide
  cases name with
  | nil => exact absurd hWord.symm (hNonempty rule hRule)
  | cons c name =>
      have hC := hAscii c (List.mem_cons_self ..)
      have hLetter : c.toLower = 'i' := by
        rcases firstLetter_of_inputWord hFound with hLower | rfl | rfl
        · exact hLower
        · exact absurd hC (by decide)
        · exact absurd hC (by decide)
      refine hFirst rule hRule ?_
      rw [← hWord, List.map_cons, hLetter]
      rfl

end

end Rule

/-- Only ASCII letters are changed at all. -/
theorem Text.toLower_of_not_ascii {c : Char} (hC : ¬ c.toNat < 0x80) : c.toLower = c := by
  unfold Char.toLower
  split
  · rename_i hUpper
    have hBound : c.val ≤ 90 := hUpper.2
    exact absurd (Nat.lt_of_le_of_lt (UInt32.le_iff_toNat_le.1 hBound) (by decide)) hC
  · rfl

/-- The word that an input is found by holds only characters that some letter of it stands for. -/
theorem not_mem_of_inputWord {read : List Char}
    (hWord : ∀ other, afterWord? "input".toList (read ++ other) = some other) {mark : Char}
    (hMark : "input".toList.any (fun letter => matchesLetter letter mark) = false) :
    mark ∉ read := by
  have hFound := hWord []
  obtain ⟨word, hText, hMem, -⟩ := read_of_afterWord? hMark hFound
  rw [List.append_nil, List.append_nil] at hText
  rwa [hText]

/-- No letter of the word stands for a character that separates attributes, begins none or ends the
tag. -/
theorem not_matchesLetter_of_apart {c : Char}
    (hApart : beginsName c = false ∨ admitsAttribute c = true) :
    "input".toList.any (fun letter => matchesLetter letter c) = false := by
  by_cases hC : c.toNat < 0x80
  · revert hApart
    apply forall_ascii ?_ hC
    decide
  · have hDotted : c ≠ '\u0130' := by
      rintro rfl
      exact absurd hApart (by decide)
    have hDotless : c ≠ '\u0131' := by
      rintro rfl
      exact absurd hApart (by decide)
    have hLetters : ∀ letter ∈ "input".toList, letter.toNat < 0x80 ∧ letter ≠ 's' ∧ letter ≠ 'k' := by
      simp
    rw [List.any_eq_false]
    intro letter hMem hMatches
    obtain ⟨hAscii, hNoS, hNoK⟩ := hLetters letter hMem
    have hLower : c ≠ letter := by
      rintro rfl
      exact hC hAscii
    simp [matchesLetter, toLower_of_not_ascii hC, hDotted, hDotless, hNoS, hNoK, hLower] at hMatches

/-- The parts of a tag that its separators stand between: the name with what opens it, and the
attributes. -/
def Markup.OpenTag.parts (tag : OpenTag) : List (List Char) :=
  ('<' :: tag.name) :: tag.attributes.map WrittenAttribute.body

theorem noInputBegins_of_not_mem {text : List Char} (hOpen : '<' ∉ text) (behind : List Char) :
    NoInputBegins text behind := by
  rintro front rest rfl
  simp at hOpen

/-- Nothing that looks like the tag of an input begins in a text exactly where none begins in its
two parts, each before what follows it. -/
theorem noInputBegins_append_iff {text more behind : List Char} :
    NoInputBegins (text ++ more) behind ↔
      NoInputBegins text (more ++ behind) ∧ NoInputBegins more behind := by
  constructor
  · refine fun hNone => ⟨fun front rest hText => ?_, fun front rest hMore => ?_⟩
    · rw [← List.append_assoc]
      exact hNone front (rest ++ more) (by simp [hText])
    · exact hNone (text ++ front) rest (by simp [hMore])
  · rintro ⟨hText, hMore⟩ front rest hJoin
    rcases List.append_eq_append_iff.1 hJoin with ⟨left, hFront, hRest⟩ | ⟨left, hFront, hRest⟩
    · exact hMore left rest hRest
    · cases left with
      | nil => exact hMore [] rest hRest.symm
      | cons c left =>
          obtain ⟨rfl, hBehind⟩ := List.cons.inj hRest
          have hLooks := hText front left hFront
          rw [← List.append_assoc] at hLooks
          rw [hBehind]
          exact hLooks

/-- What stands behind a part of a tag: separators or an end, unless the part ends so that an
attribute may follow. -/
structure FollowsPart (part behind : List Char) : Prop where
  ends : '>' ∈ behind
  apart : Stops beginsName behind ∨ ∀ before, admitsAttribute (lastOr before part) = true

/-- Whether something that looks like the tag of an input begins in a part of a tag does not hang on
what stands behind the part. -/
theorem NoInputBegins.of_followsPart {part behind other : List Char}
    (hNone : NoInputBegins part behind) (hBehind : FollowsPart part behind)
    (hOther : FollowsPart part other) : NoInputBegins part other := by
  intro front inner hPart
  have hHere := hNone front inner hPart
  rw [← Option.not_isSome_iff_eq_none, inputTagAfter?_isSome_iff] at hHere ⊢
  rintro ⟨-, read, c, later, hText, hOpen, hBlank, hStop, hWord⟩
  have hEnd : '>' ∈ inner ++ behind := List.mem_append_right _ hBehind.ends
  have hGoesOn (left : List Char) (hInner : inner = read ++ c :: left) : False :=
    hHere ⟨hEnd, read, c, left ++ behind, by simp [hInner], hOpen, hBlank, hStop, hWord⟩
  have hShort (left : List Char) (hRead : read = inner ++ left)
      (hRest : other = left ++ c :: later) : False := by
    have hLetters {d : Char} (hMem : d ∈ read) : ¬(beginsName d = false ∨ admitsAttribute d = true) :=
      fun hApart => not_mem_of_inputWord hWord (not_matchesLetter_of_apart hApart) hMem
    have hLast : ¬ ∀ before, admitsAttribute (lastOr before part) = true := by
      intro hAdmits
      have hLast := hAdmits '<'
      rw [hPart, lastOr_append, lastOr_cons] at hLast
      cases hInner : inner.getLast? with
      | none =>
          rw [lastOr, hInner] at hLast
          exact absurd hLast (by decide)
      | some d =>
          rw [lastOr, hInner] at hLast
          exact hLetters (by simp [hRead, List.mem_of_getLast? hInner]) (.inr hLast)
    have hStops := hOther.apart.resolve_right hLast
    cases left with
    | cons d left =>
        rw [hRest] at hStops
        refine hLetters (by simp [hRead]) (.inl (?_ : beginsName d = false))
        simpa using hStops
    | nil =>
        rw [List.append_nil] at hRead
        have hBehindStops := hBehind.apart.resolve_right hLast
        cases hCons : behind with
        | nil =>
            have hEnds := hBehind.ends
            simp [hCons] at hEnds
        | cons d more =>
            rw [hCons, stops_cons] at hBehindStops
            refine hHere ⟨hEnd, read, d, more, by rw [hRead, hCons], hOpen, hBlank, ?_, hWord⟩
            simpa only [beginsName, Bool.not_eq_false'] using hBehindStops
  rcases List.append_eq_append_iff.1 hText with ⟨left, hRead, hRest⟩ | ⟨left, hInner, hRest⟩
  · exact hShort left hRead hRest
  · cases left with
    | nil => exact hShort [] (by simpa using hInner.symm) hRest.symm
    | cons d left =>
        obtain ⟨rfl, -⟩ := List.cons.inj hRest
        exact hGoesOn left hInner

theorem followsPart_end (part : List Char) : FollowsPart part ['>'] :=
  ⟨List.mem_singleton_self _, .inl rfl⟩

namespace Markup

section
variable {tag : OpenTag} {behind : List Char}

/-- Behind a part of a tag stand the separators and the attributes that were read there, or the end
of the tag. -/
theorem AttributesEnd.followsPart {attributes : List WrittenAttribute} {part gap : List Char}
    (hPart : part ≠ []) (hGap : ∀ c ∈ gap, isSeparator c = true) {before : Char}
    (hEnd : AttributesEnd (lastOr before (part ++ gap)) attributes (tag.ending ++ behind)) :
    FollowsPart part (gap ++ (attributes.flatMap WrittenAttribute.source ++ tag.ending) ++ behind) := by
  constructor
  · simp [OpenTag.ending_eq]
  · cases gap with
    | cons c gap =>
        have hC := hGap c (List.mem_cons_self ..)
        refine .inl ?_
        simp only [isSeparator, Bool.or_eq_true, decide_eq_true_eq] at hC
        rcases hC with hC | hC <;> simp [beginsName, hC]
    | nil =>
        cases attributes with
        | nil => exact .inl (tag.stops_ending behind)
        | cons written rest =>
            have hAdmits := hEnd.1
            rw [List.append_nil] at hAdmits
            refine .inr fun other => ?_
            obtain ⟨last, hLast⟩ := Option.isSome_iff_exists.1 (List.getLast?_isSome.2 hPart)
            rw [lastOr, hLast] at hAdmits ⊢
            exact hAdmits

/-- What looks like the tag of an input begins in the attributes of a tag where it begins in one of
them alone. -/
theorem AttributesEnd.noInputBegins_iff {attributes : List WrittenAttribute} {before : Char}
    (hEnd : AttributesEnd before attributes (tag.ending ++ behind)) :
    NoInputBegins (attributes.flatMap WrittenAttribute.source ++ tag.ending) behind ↔
      ∀ part ∈ attributes.map WrittenAttribute.body, NoInputBegins part ['>'] := by
  induction attributes generalizing before with
  | nil =>
      have hOpen : '<' ∉ tag.ending := by
        unfold OpenTag.ending
        split <;> simp
      simpa using noInputBegins_of_not_mem hOpen behind
  | cons written rest ih =>
      obtain ⟨-, hName, -, hGap, hRest⟩ := hEnd
      have hBody : written.body ≠ [] := by simp [WrittenAttribute.body, hName.ne_nil]
      have hFollows := hRest.followsPart hBody hGap.separators
      have hOpen : '<' ∉ written.gap := fun hMem => absurd (hGap.separators _ hMem) (by decide)
      have hText : (written :: rest).flatMap WrittenAttribute.source ++ tag.ending =
          written.body ++ (written.gap ++ (rest.flatMap WrittenAttribute.source ++ tag.ending)) := by
        simp [WrittenAttribute.source]
      rw [hText, noInputBegins_append_iff, noInputBegins_append_iff, ih hRest, List.map_cons,
        List.forall_mem_cons]
      constructor
      · rintro ⟨hHere, -, hLater⟩
        exact ⟨hHere.of_followsPart hFollows (followsPart_end _), hLater⟩
      · rintro ⟨hHere, hLater⟩
        exact ⟨hHere.of_followsPart (followsPart_end _) hFollows,
          noInputBegins_of_not_mem hOpen _, hLater⟩

/-- What looks like the tag of an input begins in a tag where it begins in one of its parts alone. -/
theorem OpenTag.Ends.noInputBegins_iff (hEnds : tag.Ends behind) :
    NoInputBegins tag.source behind ↔ ∀ part ∈ tag.parts, NoInputBegins part ['>'] := by
  have hFollows := @AttributesEnd.followsPart tag behind tag.attributes ('<' :: tag.name) tag.gap
    (by simp) hEnds.gapStops.separators '<' (by simpa using hEnds.attributes)
  have hOpen : '<' ∉ tag.gap := fun hMem => absurd (hEnds.gapStops.separators _ hMem) (by decide)
  have hText : tag.source = ('<' :: tag.name) ++
      (tag.gap ++ (tag.attributes.flatMap WrittenAttribute.source ++ tag.ending)) := by
    simp [OpenTag.source, OpenTag.sourceTail]
  rw [hText, noInputBegins_append_iff, noInputBegins_append_iff, hEnds.attributes.noInputBegins_iff,
    OpenTag.parts, List.forall_mem_cons]
  constructor
  · rintro ⟨hHere, -, hLater⟩
    exact ⟨hHere.of_followsPart hFollows (followsPart_end _), hLater⟩
  · rintro ⟨hHere, hLater⟩
    exact ⟨hHere.of_followsPart (followsPart_end _) hFollows, noInputBegins_of_not_mem hOpen _, hLater⟩

/-- A tag has no end but its last character where none of its parts holds one. -/
theorem OpenTag.Ends.exists_body_iff (hEnds : tag.Ends behind) :
    (∃ body, tag.source = body ++ ['>'] ∧ '>' ∉ body) ↔ ∀ part ∈ tag.parts, '>' ∉ part := by
  have hGap : '>' ∉ tag.gap := fun hMem => absurd (hEnds.gapStops.separators _ hMem) (by decide)
  have hGaps : ∀ written ∈ tag.attributes, '>' ∉ written.gap := fun written hWritten hMem =>
    absurd (hEnds.attributes.separators written hWritten _ hMem) (by decide)
  have hSlash : '>' ∉ tag.slash := by
    unfold OpenTag.slash
    split <;> simp
  have hText : tag.source = '<' :: (tag.name ++
      (tag.gap ++ (tag.attributes.flatMap WrittenAttribute.source ++ tag.slash))) ++ ['>'] := by
    simp [OpenTag.source, OpenTag.sourceTail, OpenTag.ending_eq]
  have hAttributes : '>' ∉ tag.attributes.flatMap WrittenAttribute.source ↔
      ∀ written ∈ tag.attributes, '>' ∉ written.body := by
    simp only [List.mem_flatMap, not_exists, not_and, WrittenAttribute.source, List.mem_append,
      not_or]
    exact forall₂_congr fun written hWritten => and_iff_left (hGaps written hWritten)
  have hBody : (∃ body, tag.source = body ++ ['>'] ∧ '>' ∉ body) ↔ '>' ∉ '<' :: (tag.name ++
      (tag.gap ++ (tag.attributes.flatMap WrittenAttribute.source ++ tag.slash))) := by
    rw [hText]
    constructor
    · rintro ⟨body, hSame, hNone⟩
      rwa [List.append_cancel_right hSame]
    · exact fun hNone => ⟨_, rfl, hNone⟩
  rw [hBody, OpenTag.parts, List.forall_mem_cons, List.forall_mem_map]
  simp only [List.mem_cons, List.mem_append, not_or, hGap, hSlash, hAttributes, not_false_eq_true,
    and_true, true_and, and_assoc]

end

end Markup

/-- With tags written anew, whatever looks like the tag of an input still is the whole of one, as
long as the new parts of the tags neither open nor end a tag. -/
theorem InputTagsWhole.map_rewrite {write : OpenTag → List Char} {change : OpenTag → OpenTag}
    (hName : ∀ tag, (change tag).name = tag.name) (hOpens : ∀ tag, (write tag).head? = some '<')
    (hParts : ∀ tag, ∀ part ∈ (change tag).parts, part ∈ tag.parts ∨ '<' ∉ part ∧ '>' ∉ part)
    {dropped : List Char} {tokens : List Token} (hEnd : TagsEnd dropped tokens)
    (hAgain : TagsEnd dropped (tokens.map (Token.rewrite write change)))
    (hWhole : InputTagsWhole dropped tokens) :
    InputTagsWhole dropped (tokens.map (Token.rewrite write change)) := by
  induction tokens with
  | nil => exact hWhole
  | cons token rest ih =>
      refine ⟨?_, ih hEnd.2 hAgain.2 hWhole.2⟩
      rcases token.content.openTag_or_other with ⟨tag, hContent⟩ | hOther
      · obtain ⟨hSource, hEnds⟩ := hEnd.1 tag hContent
        obtain ⟨hNewSource, hNewEnds⟩ := hAgain.1 (change tag) (by
          rw [Token.rewrite_openTag write change hContent])
        rcases hWhole.1 with hNone | ⟨other, body, hOther, hInput, hBody⟩
        · rw [hSource, hEnds.noInputBegins_iff] at hNone
          rw [hNewSource, hNewEnds.noInputBegins_iff]
          refine .inl fun part hPart => ?_
          rcases hParts tag part hPart with hOld | ⟨hOpen, -⟩
          · exact hNone part hOld
          · exact noInputBegins_of_not_mem hOpen _
        · rw [hContent] at hOther
          cases hOther
          have hEndless := hEnds.exists_body_iff.1 ⟨body, hBody⟩
          obtain ⟨left, hLeft⟩ := hNewEnds.exists_body_iff.2 fun part hPart =>
            (hParts tag part hPart).elim (hEndless part) And.right
          refine .inr ⟨change tag, left, ?_, by rw [hName, hInput], hLeft⟩
          rw [Token.rewrite_openTag write change hContent]
      · rw [Token.rewrite_other write change hOther, flatMap_source_rewrite]
        exact hWhole.1.imp (·.rewriteTags hOpens hEnd.2.source_of_openTag) id

end AccessibleMarkup
