import AccessibleMarkup.Proofs.ElementTags
import AccessibleMarkup.Proofs.SpanCuts

/-! Where the attributes of a text stand. Any text is read as attributes that come one behind the
other with nothing but separators in between, behind the name of a tag if the text begins with one.
Each of them stands in the text as it says, and the reading stops only where no attribute can
begin. -/
namespace AccessibleMarkup.Markup

open AccessibleMarkup.Text

/-- How a value may be written: without quotes, or between two equal ones that it does not hold. -/
def WritesValue (value written : List Char) : Prop :=
  (written = value ∧ Stops isQuote value ∧ ∀ c ∈ value, continuesBareValue c = true) ∨
    ∃ mark, isQuote mark = true ∧ mark ∉ value ∧ written = mark :: value ++ [mark]

/-- The attribute stands in the text as it says: its name, and behind the name nothing, or a lead
and the value. -/
structure PlacedAttribute.StandsIn (text : List Char) (placed : PlacedAttribute) : Prop where
  isName : IsAttributeName placed.name
  name : slice text placed.start (placed.start + placed.name.length) = placed.name
  alone : placed.value? = none ↔ placed.stop = placed.start + placed.name.length
  assigned : ∀ value, placed.value? = some value → ∃ before signs behind written,
    IsLead before signs behind ∧ WritesValue value written ∧
      slice text (placed.start + placed.name.length) placed.stop =
        before ++ signs ++ behind ++ written

/-- Nothing but separators stands between two places of the text. -/
def Separated (text : List Char) (start stop : Nat) : Prop :=
  start ≤ stop ∧ ∀ c ∈ slice text start stop, isSeparator c = true

/-- Behind the separators from an offset on, if there are any, no attribute begins. -/
def NoneBegins (text : List Char) (offset : Nat) : Prop :=
  ∃ gap rest, text.drop offset = gap ++ rest ∧ GapStops gap rest ∧
    (admitsAttribute (lastOr '<' (text.take offset ++ gap)) = false ∨ Stops beginsName rest)

/-- An assignment is a lead and a value. -/
theorem Assignment.Ends.exists_parts {assignment : Assignment} {following : List Char}
    (hEnds : assignment.Ends following) :
    ∃ before signs behind, assignment.lead = before ++ signs ++ behind ∧
      IsLead before signs behind ∧ WritesValue assignment.value.text assignment.value.source := by
  cases hEnds with
  | quoted lead isMark closed =>
      exact ⟨_, _, _, rfl, lead, .inr ⟨_, isMark, closed, rfl⟩⟩
  | bare lead _ opens goesOn _ =>
      exact ⟨_, _, _, rfl, lead, .inl ⟨rfl, opens.of_append, goesOn⟩⟩
  | @beforeBlank before signs behind rest blank mark lead _ _ =>
      have hFewer : ∀ c ∈ behind, isBlank c = true := fun c hMem =>
        lead.behind_blank c (List.mem_append_left _ hMem)
      exact ⟨_, _, _, rfl, ⟨lead.before_blank, lead.signs_ne_nil, lead.signs_eq, hFewer⟩,
        .inl ⟨rfl, trivial, by simp [WrittenValue.text]⟩⟩
  | @beforeSign before signs value following mark lead isMark goesOn _ _ =>
      refine ⟨before, signs, [], (List.append_nil _).symm, lead, .inl ⟨rfl, ?_, ?_⟩⟩
      · show isQuote '=' = false
        decide
      · intro c hMem
        rcases List.mem_cons.1 hMem with rfl | hMem
        · decide
        · rcases List.mem_cons.1 hMem with rfl | hMem
          · exact continuesBareValue_of_isQuote isMark
          · exact goesOn c hMem

/-- An attribute that is read behind `front` stands there. -/
theorem WrittenAttribute.standsIn {text front following : List Char} {written : WrittenAttribute}
    (hName : IsAttributeName written.name) (hEnds : written.Ends following)
    (hText : front ++ written.body <+: text) :
    PlacedAttribute.StandsIn text
      ⟨written.name, written.value?, front.length, front.length + written.body.length⟩ := by
  obtain ⟨rest, rfl⟩ := hText
  obtain ⟨name, assignment, gap⟩ := written
  cases assignment with
  | none =>
      have hBody : body ⟨name, none, gap⟩ = name := by simp [body]
      rw [hBody]
      exact ⟨hName, slice_append front name rest, by simp [value?], by simp [value?]⟩
  | some assignment =>
      obtain ⟨before, signs, behind, hLead, hIsLead, hValue⟩ := Assignment.Ends.exists_parts hEnds
      have hSource : assignment.source = before ++ signs ++ behind ++ assignment.value.source := by
        rw [Assignment.source, hLead]
      have hSome : 0 < assignment.source.length := by
        have hPositive := List.length_pos_of_ne_nil hIsLead.ne_nil
        rw [hSource, List.length_append]
        omega
      have hBody : body ⟨name, some assignment, gap⟩ = name ++ assignment.source := by simp [body]
      rw [hBody]
      refine ⟨hName, ?_, ?_, ?_⟩
      · have hSlice := slice_append front name (assignment.source ++ rest)
        simpa using hSlice
      · simp only [value?, List.length_append, Option.map_some, reduceCtorEq, false_iff]
        omega
      · intro value hSame
        cases hSame
        refine ⟨before, signs, behind, _, hIsLead, hValue, ?_⟩
        have hSlice := slice_append (front ++ name) assignment.source rest
        rw [← hSource]
        simpa [Nat.add_assoc] using hSlice

/-- Where an attribute ends, and where its gap ends. -/
theorem WrittenAttribute.body_prefix {text front behind : List Char} {written : WrittenAttribute}
    (hText : front ++ (written.source ++ behind) <+: text) :
    front ++ written.body <+: text ∧ front ++ written.body ++ written.gap <+: text := by
  have hGap : front ++ written.body ++ written.gap <+: text := by
    rw [WrittenAttribute.source, ← List.append_assoc, ← List.append_assoc] at hText
    exact (List.prefix_append _ _).trans hText
  exact ⟨(List.prefix_append _ _).trans hGap, hGap⟩

/-- A gap separates. -/
theorem separated_of_prefix {text front gap : List Char}
    (hGap : ∀ c ∈ gap, isSeparator c = true) (hText : front ++ gap <+: text) :
    Separated text front.length (front ++ gap).length := by
  obtain ⟨rest, rfl⟩ := hText
  rw [List.length_append, Separated, slice_append]
  exact ⟨Nat.le_add_right _ _, hGap⟩

section
variable {text : List Char}

/-- Attributes that are read one after the other behind `front` stand there, with nothing but
separators in between. -/
theorem AttributesEnd.standIn {before : Char} {attributes : List WrittenAttribute}
    {rest : List Char} (hEnd : AttributesEnd before attributes rest) {front : List Char}
    (hText : front ++ attributes.flatMap WrittenAttribute.source <+: text) :
    (∀ placed ∈ placedFrom front.length attributes, placed.StandsIn text) ∧
      (placedFrom front.length attributes).IsChain fun one next =>
        Separated text one.stop next.start := by
  induction attributes generalizing before front with
  | nil => simp [placedFrom]
  | cons written more ih =>
      obtain ⟨-, hName, hEnds, hGap, hMore⟩ := hEnd
      rw [List.flatMap_cons] at hText
      obtain ⟨hBody, hWhole⟩ := written.body_prefix hText
      rw [← List.append_assoc] at hText
      obtain ⟨hStand, hChain⟩ := ih hMore hText
      rw [List.length_append] at hStand hChain
      refine ⟨List.forall_mem_cons.2 ⟨written.standsIn hName hEnds hBody, hStand⟩, ?_⟩
      cases more with
      | nil => exact .singleton _
      | cons next more =>
          have hBetween := separated_of_prefix hGap.separators hWhole
          simp only [List.length_append] at hBetween
          refine .cons_cons ?_ hChain
          simpa [WrittenAttribute.source, Nat.add_assoc] using hBetween

/-- Behind the last of the attributes that are read no other begins, nor behind the name of the tag
where there are none. -/
theorem AttributesEnd.noneBegins {name gap rest : List Char} {attributes : List WrittenAttribute}
    (hEnd : AttributesEnd (lastOr '<' (name ++ gap)) attributes rest)
    (hGap : GapStops gap (attributes.flatMap WrittenAttribute.source ++ rest))
    (hText : text = name ++ gap ++ (attributes.flatMap WrittenAttribute.source ++ rest)) :
    NoneBegins text (((placedFrom (name ++ gap).length attributes).getLast?.map
      PlacedAttribute.stop).getD name.length) := by
  induction attributes generalizing name gap with
  | nil =>
      simp only [List.flatMap_nil, List.nil_append] at hGap hText
      refine ⟨gap, rest, ?_, hGap, ?_⟩
      · simp [placedFrom, hText]
      · simpa [placedFrom, hText] using readAttribute?_eq_none_iff.1 hEnd
  | cons written more ih =>
      obtain ⟨-, -, -, hNextGap, hMore⟩ := hEnd
      have hFront : name ++ gap ++ written.body ++ written.gap = name ++ gap ++ written.source := by
        simp [WrittenAttribute.source]
      have hBehind := @ih (name ++ gap ++ written.body) written.gap
        (by rw [hFront, lastOr_append]; exact hMore) hNextGap (by rw [hText, hFront]; simp)
      rw [hFront] at hBehind
      simp only [placedFrom, List.getLast?_cons]
      simp only [List.length_append] at hBehind ⊢
      cases hLast : (placedFrom _ more).getLast? with
      | none => simpa [hLast] using hBehind
      | some last => simpa [hLast] using hBehind

end

/-- Every attribute takes a character of the text it is read from. -/
theorem length_placedFrom_le {attributes : List WrittenAttribute}
    (hNames : ∀ written ∈ attributes, IsAttributeName written.name) (offset : Nat) :
    (placedFrom offset attributes).length ≤
      (attributes.flatMap WrittenAttribute.source).length := by
  induction attributes generalizing offset with
  | nil => simp [placedFrom]
  | cons written more ih =>
      obtain ⟨hName, hMore⟩ := List.forall_mem_cons.1 hNames
      have hRest := ih hMore (offset + written.source.length)
      have hFirst := List.length_pos_of_ne_nil hName.ne_nil
      simp only [placedFrom, List.length_cons, List.flatMap_cons, List.length_append,
        WrittenAttribute.source, WrittenAttribute.body] at hRest ⊢
      omega

/-- A tag loses no more than the `>` at its end. -/
theorem length_withoutEnd (text : List Char) :
    (withoutEnd text).length =
      if text.getLast? = some '>' then text.length - 1 else text.length := by
  unfold withoutEnd
  split <;> simp

/-- How any text is read as attributes. Each of them lies before the end of the tag and stands in
the text as it says: its name is not empty; it ends behind its name exactly where it has no value,
and has equals signs, with white space on both sides or without, and the value behind its name where
it has one. They come one behind the other, behind the name of the tag, with nothing but white space
and slashes in between; there are no more of them than characters; and none begins behind the last
one. -/
theorem attributes_in_order (text : List Char) :
    (∀ placed ∈ attributesOf text, placed.name ≠ [] ∧ placed.start < placed.stop ∧
        placed.stop ≤ (if text.getLast? = some '>' then text.length - 1 else text.length) ∧
        placed.StandsIn text) ∧
      (∀ first ∈ (attributesOf text).head?,
        Separated text (tagStart text).length first.start) ∧
      ((attributesOf text).IsChain fun one next => Separated text one.stop next.start) ∧
      (attributesOf text).length ≤ text.length ∧
      NoneBegins (withoutEnd text)
        (((attributesOf text).getLast?.map PlacedAttribute.stop).getD (tagStart text).length) := by
  obtain ⟨gap, attributes, rest, hText, hGap, hEnd, hPlaced⟩ := exists_gap_attributesOf text
  have hPrefix := withoutEnd_prefix text
  have hFront : tagStart text ++ gap ++ attributes.flatMap WrittenAttribute.source <+: text := by
    rw [hText, ← List.append_assoc] at hPrefix
    exact (List.prefix_append _ _).trans hPrefix
  obtain ⟨hStand, hChain⟩ := hEnd.standIn hFront
  have hWithin := placedFrom_within hEnd.names (tagStart text ++ gap).length
  have hLength := congrArg List.length hText
  simp only [List.length_append] at hLength hWithin
  rw [← length_withoutEnd, hPlaced]
  refine ⟨fun placed hMem => ⟨(hStand placed hMem).isName.ne_nil, ?_⟩, ?_, hChain, ?_,
    hEnd.noneBegins hGap hText⟩
  · rw [List.length_append] at hMem
    obtain ⟨hOrder, hStop⟩ := hWithin placed hMem
    refine ⟨hOrder, by omega, hStand placed (by rwa [List.length_append])⟩
  · intro first hFirst
    cases attributes with
    | nil => simp [placedFrom] at hFirst
    | cons written more =>
        simp only [placedFrom, List.head?_cons, Option.mem_def, Option.some.injEq] at hFirst
        subst hFirst
        exact separated_of_prefix hGap.separators ((List.prefix_append _ _).trans hFront)
  · have hCount := length_placedFrom_le hEnd.names (tagStart text ++ gap).length
    have hWhole := hPrefix.length_le
    simp only [List.length_append] at hCount ⊢
    omega

example : (attributesOf "<p a=1 =b/c = 'd e'f =>".toList).map (fun placed =>
    (String.ofList placed.name, placed.start, placed.stop)) =
    [("a", 3, 6), ("=b", 7, 9), ("c", 10, 19), ("f", 19, 22)] := by decide +kernel

end AccessibleMarkup.Markup
