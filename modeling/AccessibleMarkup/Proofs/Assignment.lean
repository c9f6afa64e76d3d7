import AccessibleMarkup.Markup.Attribute

/-! What stands behind the name of an attribute, as a grammar. The reader takes the longest
assignment that it can find; the grammar says of an assignment and of what follows it when the
reader takes exactly this assignment and leaves exactly this text. -/
namespace AccessibleMarkup.Markup

open AccessibleMarkup.Text

/-- A run of characters that pass the test does not go on into the text. -/
def Stops (test : Char → Bool) : List Char → Prop
  | [] => True
  | c :: _ => test c = false

@[simp] theorem stops_nil (test : Char → Bool) : Stops test [] := trivial

@[simp] theorem stops_cons (test : Char → Bool) (c : Char) (rest : List Char) :
    Stops test (c :: rest) ↔ test c = false := Iff.rfl

theorem Stops.append {test : Char → Bool} {front : List Char} (hFront : Stops test front)
    (hNonempty : front ≠ []) (rest : List Char) : Stops test (front ++ rest) := by
  cases front with
  | nil => exact absurd rfl hNonempty
  | cons c tail => exact hFront

/-- What does not go on into a text does not go on into the front of it. -/
theorem Stops.of_append {test : Char → Bool} {front rest : List Char}
    (hStops : Stops test (front ++ rest)) : Stops test front := by
  cases front with
  | nil => trivial
  | cons c tail => exact hStops

/-- A run is what passes the test, up to where it stops. -/
theorem splitRun_eq_iff {test : Char → Bool} {text run rest : List Char} :
    splitRun (fun c _ => test c) text = (run, rest) ↔
      text = run ++ rest ∧ (∀ c ∈ run, test c = true) ∧ Stops test rest := by
  constructor
  · intro hSplit
    have hJoin := splitRun_append (fun c _ => test c) text
    rw [hSplit] at hJoin
    refine ⟨hJoin.symm, ?_, ?_⟩
    · intro c hMem
      have hRun : c ∈ (splitRun (fun c _ => test c) text).1 := by rwa [hSplit]
      exact forall_mem_splitRun test hRun
    · cases rest with
      | nil => trivial
      | cons c tail =>
          have hRest : (splitRun (fun c _ => test c) text).2 = c :: tail := by rw [hSplit]
          exact splitRun_stops (fun c _ => test c) hRest
  · rintro ⟨rfl, hRun, hStops⟩
    induction run with
    | nil =>
        cases rest with
        | nil => rfl
        | cons c tail => simp [splitRun_cons, (stops_cons test c tail).1 hStops]
    | cons c run ih =>
        have hTail := ih fun d hMem => hRun d (List.mem_cons_of_mem c hMem)
        simp [splitRun_cons, hRun c (List.mem_cons_self ..), hTail]

/-- White space is split off where none of it is left behind. -/
theorem splitBlank_eq_iff {text run rest : List Char} :
    splitBlank text = (run, rest) ↔
      text = run ++ rest ∧ (∀ c ∈ run, isBlank c = true) ∧ Stops isBlank rest :=
  splitRun_eq_iff

/-- A value without quotes is split off where what follows it cannot belong to it. -/
theorem splitBareValue_eq_iff {text run rest : List Char} :
    splitBareValue text = (run, rest) ↔
      text = run ++ rest ∧ (∀ c ∈ run, continuesBareValue c = true) ∧
        Stops continuesBareValue rest :=
  splitRun_eq_iff

theorem splitSigns_eq_iff {text run rest : List Char} :
    splitRun (fun c _ => c = '=') text = (run, rest) ↔
      text = run ++ rest ∧ (∀ c ∈ run, c = '=') ∧ Stops (fun c => c = '=') rest := by
  have hIff : splitRun (fun c _ => decide (c = '=')) text = (run, rest) ↔ _ := splitRun_eq_iff
  simpa using hIff

/-- A text is split at the mark that none stands before. -/
theorem splitAtFirst?_eq_some_iff {mark : Char} {text before rest : List Char} :
    splitAtFirst? mark text = some (before, rest) ↔
      text = before ++ mark :: rest ∧ mark ∉ before := by
  constructor
  · intro hSplit
    refine ⟨splitAtFirst?_eq_some hSplit, ?_⟩
    unfold splitAtFirst? at hSplit
    split at hSplit
    · split at hSplit
      · simp at hSplit
      · rename_i found c tail hRun
        cases hSplit
        have hTest := (splitRun_eq_iff.1 hRun).2.1
        intro hMem
        simpa using hTest mark hMem
    · simp at hSplit
  · rintro ⟨rfl, hMem⟩
    have hRun : splitRun (fun c _ => c != mark) (before ++ mark :: rest) =
        (before, mark :: rest) := by
      refine splitRun_eq_iff.2 ⟨rfl, ?_, by simp⟩
      intro c hC
      simp only [bne_iff_ne, ne_eq]
      rintro rfl
      exact hMem hC
    simp [splitAtFirst?, hRun]

/-- White space, equals signs and white space again. There is at least one equals sign. -/
structure IsLead (before signs behind : List Char) : Prop where
  before_blank : ∀ c ∈ before, isBlank c = true
  signs_ne_nil : signs ≠ []
  signs_eq : ∀ c ∈ signs, c = '='
  behind_blank : ∀ c ∈ behind, isBlank c = true

/-- A lead does not go on into the text. -/
def LeadStops (behind rest : List Char) : Prop :=
  Stops isBlank rest ∧ (behind = [] → Stops (fun c => c = '=') rest)

@[simp] theorem leadStops_nil (behind : List Char) : LeadStops behind [] :=
  ⟨trivial, fun _ => trivial⟩

theorem isBlank_sign : isBlank '=' = false := by decide

theorem IsLead.ne_nil {before signs behind : List Char} (hLead : IsLead before signs behind) :
    before ++ signs ++ behind ≠ [] := by
  simp [hLead.signs_ne_nil]

/-- A lead is split off where it is one and does not go on into what follows. -/
theorem splitLead?_eq_some_iff {text before signs behind rest : List Char} :
    splitLead? text = some ((before, signs, behind), rest) ↔
      text = before ++ signs ++ behind ++ rest ∧ IsLead before signs behind ∧
        LeadStops behind rest := by
  constructor
  · intro hLead
    rcases hFirst : splitBlank text with ⟨front, afterFront⟩
    rcases hMiddle : splitRun (fun c _ => c = '=') afterFront with ⟨middle, afterMiddle⟩
    rcases hLast : splitBlank afterMiddle with ⟨last, afterLast⟩
    simp only [splitLead?, hFirst, hMiddle, hLast] at hLead
    split at hLead
    · simp at hLead
    · rename_i hSigns
      cases hLead
      obtain ⟨rfl, hBefore, -⟩ := splitBlank_eq_iff.1 hFirst
      obtain ⟨rfl, hSign, hSignStops⟩ := splitSigns_eq_iff.1 hMiddle
      obtain ⟨rfl, hBehind, hBlankStops⟩ := splitBlank_eq_iff.1 hLast
      refine ⟨by simp, ⟨hBefore, by simpa using hSigns, hSign, hBehind⟩, hBlankStops, ?_⟩
      rintro rfl
      exact hSignStops
  · rintro ⟨rfl, hLead, hBlank, hSign⟩
    have hFirst : splitBlank (before ++ signs ++ behind ++ rest) =
        (before, signs ++ behind ++ rest) := by
      refine splitBlank_eq_iff.2 ⟨by simp, hLead.before_blank, ?_⟩
      obtain ⟨c, tail, rfl⟩ := List.exists_cons_of_ne_nil hLead.signs_ne_nil
      rw [hLead.signs_eq c (List.mem_cons_self ..)]
      exact isBlank_sign
    have hMiddle : splitRun (fun c _ => c = '=') (signs ++ behind ++ rest) =
        (signs, behind ++ rest) := by
      refine splitSigns_eq_iff.2 ⟨by simp, hLead.signs_eq, ?_⟩
      cases behind with
      | nil => exact hSign rfl
      | cons c tail =>
          have hC := hLead.behind_blank c (List.mem_cons_self ..)
          simp only [List.cons_append, stops_cons, decide_eq_false_iff_not]
          rintro rfl
          simp [isBlank_sign] at hC
    have hLast : splitBlank (behind ++ rest) = (behind, rest) :=
      splitBlank_eq_iff.2 ⟨rfl, hLead.behind_blank, hBlank⟩
    simp only [splitLead?, hFirst, hMiddle, hLast, List.isEmpty_iff, hLead.signs_ne_nil, if_false]

/-- Without a lead there is no equals sign behind the white space at the front. -/
theorem splitLead?_eq_none_iff {text : List Char} :
    splitLead? text = none ↔ Stops (fun c => c = '=') (splitBlank text).2 := by
  have hSigns : (splitRun (fun c _ => c = '=') (splitBlank text).2).1 = [] ↔
      Stops (fun c => c = '=') (splitBlank text).2 := by
    cases (splitBlank text).2 with
    | nil => simp
    | cons c tail =>
        rw [splitRun_cons]
        by_cases hC : c = '='
        · simp [hC]
        · simp [hC]
  rw [← hSigns]
  simp only [splitLead?]
  split
  · rename_i hEmpty
    simpa using hEmpty
  · rename_i hEmpty
    simpa using hEmpty

theorem continuesBareValue_of_isQuote {c : Char} (hQuote : isQuote c = true) :
    continuesBareValue c = true := by
  simp only [isQuote, Bool.or_eq_true, decide_eq_true_eq] at hQuote
  rcases hQuote with rfl | rfl <;> decide

theorem not_isBlank_of_isQuote {c : Char} (hQuote : isQuote c = true) : isBlank c = false := by
  simp only [isQuote, Bool.or_eq_true, decide_eq_true_eq] at hQuote
  rcases hQuote with rfl | rfl <;> decide

theorem ne_sign_of_isQuote {c : Char} (hQuote : isQuote c = true) : c ≠ '=' := by
  rintro rfl
  revert hQuote
  decide

/-- A lead ends before a quote. -/
theorem splitLead?_quote {before signs behind : List Char} {mark : Char}
    (hLead : IsLead before signs behind) (hMark : isQuote mark = true) (rest : List Char) :
    splitLead? (before ++ signs ++ behind ++ mark :: rest) =
      some ((before, signs, behind), mark :: rest) :=
  splitLead?_eq_some_iff.2 ⟨rfl, hLead, not_isBlank_of_isQuote hMark, fun _ => by
    simpa using ne_sign_of_isQuote hMark⟩

/-- A value may begin with an equals sign and hold a quote. -/
theorem splitBareValue_sign {value following : List Char} {mark : Char}
    (hMark : isQuote mark = true) (hValue : ∀ c ∈ value, continuesBareValue c = true)
    (hStops : Stops continuesBareValue following) :
    splitBareValue ('=' :: mark :: (value ++ following)) = ('=' :: mark :: value, following) := by
  refine splitBareValue_eq_iff.2 ⟨rfl, ?_, hStops⟩
  intro c hMem
  rcases List.mem_cons.1 hMem with rfl | hMem
  · decide
  · rcases List.mem_cons.1 hMem with rfl | hMem
    · exact continuesBareValue_of_isQuote hMark
    · exact hValue c hMem

/-- How an assignment ends before what follows it. -/
inductive Assignment.Ends : Assignment → List Char → Prop where
  /-- A value in quotes ends by itself. -/
  | quoted {before signs behind text following : List Char} {mark : Char}
      (lead : IsLead before signs behind) (isMark : isQuote mark = true) (closed : mark ∉ text) :
      Assignment.Ends ⟨before ++ signs ++ behind, .quoted mark text⟩ following
  /-- A value without quotes goes on up to white space or the end of the tag. -/
  | bare {before signs behind value following : List Char}
      (lead : IsLead before signs behind) (leadStops : LeadStops behind (value ++ following))
      (opens : Stops isQuote (value ++ following))
      (goesOn : ∀ c ∈ value, continuesBareValue c = true)
      (stops : Stops continuesBareValue following) :
      Assignment.Ends ⟨before ++ signs ++ behind, .bare value⟩ following
  /-- The last blank of a lead is left out before a quote that is never closed. -/
  | beforeBlank {before signs behind rest : List Char} {blank mark : Char}
      (lead : IsLead before signs (behind ++ [blank])) (isMark : isQuote mark = true)
      (unclosed : mark ∉ rest) :
      Assignment.Ends ⟨before ++ signs ++ behind, .bare []⟩ (blank :: mark :: rest)
  /-- The last of several equals signs belongs to the value before a quote that is never closed. -/
  | beforeSign {before signs value following : List Char} {mark : Char}
      (lead : IsLead before signs []) (isMark : isQuote mark = true)
      (goesOn : ∀ c ∈ value, continuesBareValue c = true)
      (stops : Stops continuesBareValue following) (unclosed : mark ∉ value ++ following) :
      Assignment.Ends ⟨before ++ signs, .bare ('=' :: mark :: value)⟩ following

/-- One more equals sign makes a lead of a lead. -/
theorem IsLead.concat_sign {before signs : List Char} (hLead : IsLead before signs []) :
    IsLead before (signs ++ ['=']) [] := by
  refine ⟨hLead.before_blank, by simp, ?_, by simp⟩
  intro c hMem
  rcases List.mem_append.1 hMem with hMem | hMem
  · exact hLead.signs_eq c hMem
  · simpa using hMem

/-- What the reader takes for a value. -/
theorem readValue?_eq_some_iff {text rest : List Char} {value : WrittenValue} :
    readValue? text = some (value, rest) ↔
      (∃ mark inner, value = .quoted mark inner ∧ isQuote mark = true ∧ mark ∉ inner ∧
        text = mark :: inner ++ mark :: rest) ∨
      ∃ bare, value = .bare bare ∧ text = bare ++ rest ∧ Stops isQuote text ∧
        (∀ c ∈ bare, continuesBareValue c = true) ∧ Stops continuesBareValue rest := by
  cases text with
  | nil =>
      constructor
      · intro hRead
        simp only [readValue?, Option.some.injEq, Prod.mk.injEq] at hRead
        obtain ⟨rfl, rfl⟩ := hRead
        exact .inr ⟨[], rfl, rfl, trivial, by simp, trivial⟩
      · rintro (⟨mark, inner, -, -, -, hText⟩ | ⟨bare, rfl, hText, -⟩)
        · simp at hText
        · obtain ⟨rfl, rfl⟩ := List.append_eq_nil_iff.1 hText.symm
          rfl
  | cons c tail =>
      by_cases hQuote : isQuote c = true
      · constructor
        · intro hRead
          simp only [readValue?, hQuote, if_true] at hRead
          obtain ⟨⟨inner, behind⟩, hSplit, hEq⟩ := Option.map_eq_some_iff.1 hRead
          cases hEq
          obtain ⟨rfl, hInner⟩ := splitAtFirst?_eq_some_iff.1 hSplit
          exact .inl ⟨c, inner, rfl, hQuote, hInner, rfl⟩
        · rintro (⟨mark, inner, rfl, -, hInner, hText⟩ | ⟨bare, -, -, hOpens, -⟩)
          · simp only [List.cons_append, List.cons.injEq] at hText
            obtain ⟨rfl, rfl⟩ := hText
            simp [readValue?, hQuote, splitAtFirst?_eq_some_iff.2 ⟨rfl, hInner⟩]
          · simp [hQuote] at hOpens
      · constructor
        · intro hRead
          rcases hSplit : splitBareValue (c :: tail) with ⟨bare, behind⟩
          simp only [readValue?, hQuote, Bool.false_eq_true, if_false, hSplit] at hRead
          cases hRead
          have hBare := splitBareValue_eq_iff.1 hSplit
          exact .inr ⟨bare, rfl, hBare.1, by simpa using hQuote, hBare.2⟩
        · rintro (⟨mark, inner, -, hMark, -, hText⟩ | ⟨bare, rfl, hText, -, hBare⟩)
          · simp only [List.cons_append, List.cons.injEq] at hText
            rw [hText.1] at hQuote
            exact absurd hMark hQuote
          · simp [readValue?, hQuote, splitBareValue_eq_iff.2 ⟨hText, hBare⟩]

/-- There is no value only before a quote that is never closed. -/
theorem readValue?_eq_none_iff {text : List Char} :
    readValue? text = none ↔
      ∃ mark rest, text = mark :: rest ∧ isQuote mark = true ∧ mark ∉ rest := by
  cases text with
  | nil => simp [readValue?]
  | cons c tail =>
      by_cases hQuote : isQuote c = true
      · simp only [readValue?, hQuote, if_true, Option.map_eq_none_iff, splitAtFirst?_eq_none_iff]
        constructor
        · intro hTail
          exact ⟨c, tail, rfl, hQuote, hTail⟩
        · rintro ⟨mark, rest, hText, -, hRest⟩
          cases hText
          exact hRest
      · simp only [readValue?, hQuote, Bool.false_eq_true, if_false, reduceCtorEq, false_iff]
        rintro ⟨mark, rest, hText, hMark, -⟩
        cases hText
        exact hQuote hMark

/-- What the reader gives back before a quote that is never closed. -/
theorem readBeforeQuote?_eq_some_iff {before signs behind rest following : List Char}
    {assignment : Assignment} (hLead : IsLead before signs behind) :
    readBeforeQuote? before signs behind rest = some (assignment, following) ↔
      (∃ front blank, behind = front ++ [blank] ∧
        assignment = ⟨before ++ signs ++ front, .bare []⟩ ∧ following = blank :: rest) ∨
      ∃ fewer value, behind = [] ∧ signs = fewer ++ ['='] ∧ fewer ≠ [] ∧
        assignment = ⟨before ++ fewer, .bare value⟩ ∧
        splitBareValue ('=' :: rest) = (value, following) := by
  unfold readBeforeQuote?
  cases hLast : behind.getLast? with
  | some blank =>
      obtain ⟨front, rfl⟩ := List.getLast?_eq_some_iff.1 hLast
      simp only [Option.some.injEq, Prod.mk.injEq, List.dropLast_concat]
      constructor
      · rintro ⟨rfl, rfl⟩
        exact .inl ⟨front, blank, rfl, rfl, rfl⟩
      · rintro (⟨other, mark, hBehind, rfl, rfl⟩ | ⟨fewer, value, hBehind, -⟩)
        · obtain ⟨rfl, hMark⟩ := List.append_inj' hBehind rfl
          cases hMark
          exact ⟨rfl, rfl⟩
        · simp at hBehind
  | none =>
      have hBehind := List.getLast?_eq_none_iff.1 hLast
      subst hBehind
      obtain ⟨fewer, last, rfl⟩ : ∃ fewer last, signs = fewer ++ [last] :=
        ⟨_, _, (List.dropLast_concat_getLast hLead.signs_ne_nil).symm⟩
      have hLastSign : last = '=' := hLead.signs_eq last (by simp)
      subst hLastSign
      simp only [List.length_append, List.length_singleton, List.dropLast_concat]
      split
      · rename_i hMany
        have hFewer : fewer ≠ [] := by
          rintro rfl
          simp at hMany
        simp only [Option.some.injEq, Prod.mk.injEq]
        constructor
        · rintro ⟨rfl, rfl⟩
          exact .inr ⟨fewer, _, trivial, rfl, hFewer, rfl, rfl⟩
        · rintro (⟨other, mark, hNil, -⟩ | ⟨other, value, -, hSigns, -, rfl, hSplit⟩)
          · simp at hNil
          · obtain ⟨rfl, -⟩ := List.append_inj' hSigns rfl
            simp [hSplit]
      · rename_i hMany
        have hFewer : fewer = [] := by
          cases fewer with
          | nil => rfl
          | cons c tail => simp at hMany
        subst hFewer
        constructor
        · simp
        · rintro (⟨other, mark, hNil, -⟩ | ⟨other, value, -, hSigns, hNonempty, -⟩)
          · simp at hNil
          · exact absurd (List.append_inj' hSigns.symm rfl).1 hNonempty

/-- An assignment that was read ends before what follows it. In the one case where the reader gives
a character back, the value holds the sign and the quote, since both go on with it. -/
theorem ends_of_readAssignment? {text following : List Char} {assignment : Assignment}
    (hRead : readAssignment? text = some (assignment, following)) : assignment.Ends following := by
  unfold readAssignment? at hRead
  split at hRead
  · simp at hRead
  · rename_i before signs behind rest hSplitLead
    obtain ⟨-, hLead, hStops⟩ := splitLead?_eq_some_iff.1 hSplitLead
    split at hRead
    · rename_i value tail hValue
      cases hRead
      rcases readValue?_eq_some_iff.1 hValue with
        ⟨mark, inner, rfl, hMark, hInner, -⟩ | ⟨bare, rfl, rfl, hOpens, hBare, hEnd⟩
      · exact .quoted hLead hMark hInner
      · exact .bare hLead hStops hOpens hBare hEnd
    · rename_i hNone
      obtain ⟨mark, tail, rfl, hMark, hTail⟩ := readValue?_eq_none_iff.1 hNone
      rcases (readBeforeQuote?_eq_some_iff hLead).1 hRead with
        ⟨front, blank, rfl, rfl, rfl⟩ | ⟨fewer, value, rfl, rfl, hFewer, rfl, hSplit⟩
      · exact .beforeBlank hLead hMark hTail
      · obtain ⟨hJoin, hValue, hEnd⟩ := splitBareValue_eq_iff.1 hSplit
        have hFewerLead : IsLead before fewer [] :=
          ⟨hLead.before_blank, hFewer,
            fun c hMem => hLead.signs_eq c (List.mem_append_left _ hMem), by simp⟩
        cases value with
        | nil =>
            rw [List.nil_append] at hJoin
            subst hJoin
            exact absurd hEnd (by simp [continuesBareValue, isBlank_sign])
        | cons first value =>
            injection hJoin with hFirst hJoin
            subst hFirst
            cases value with
            | nil =>
                rw [List.append_eq, List.nil_append] at hJoin
                subst hJoin
                simp [continuesBareValue_of_isQuote hMark] at hEnd
            | cons second value =>
                injection hJoin with hSecond hJoin
                subst hSecond hJoin
                exact .beforeSign hFewerLead hMark
                  (fun c hMem => hValue c (by simp [hMem])) hEnd hTail

/-- An assignment that ends before what follows it is read there, and nothing else is. With
`ends_of_readAssignment?` this says what the reader takes without saying how. -/
theorem readAssignment?_of_ends {following : List Char} {assignment : Assignment}
    (hEnds : assignment.Ends following) :
    readAssignment? (assignment.source ++ following) = some (assignment, following) := by
  cases hEnds with
  | @quoted before signs behind text following mark lead isMark closed =>
      have hValue : readValue? (mark :: (text ++ mark :: following)) =
          some (.quoted mark text, following) :=
        readValue?_eq_some_iff.2 (.inl ⟨mark, text, rfl, isMark, closed, rfl⟩)
      have hText : Assignment.source ⟨before ++ signs ++ behind, .quoted mark text⟩ ++ following =
          before ++ signs ++ behind ++ mark :: (text ++ mark :: following) := by
        simp [Assignment.source, WrittenValue.source]
      rw [hText]
      simp only [readAssignment?, splitLead?_quote lead isMark, hValue]
  | @bare before signs behind value following lead leadStops opens goesOn stops =>
      have hLead : splitLead? (before ++ signs ++ behind ++ (value ++ following)) =
          some ((before, signs, behind), value ++ following) :=
        splitLead?_eq_some_iff.2 ⟨rfl, lead, leadStops⟩
      have hValue : readValue? (value ++ following) = some (.bare value, following) :=
        readValue?_eq_some_iff.2 (.inr ⟨value, rfl, rfl, opens, goesOn, stops⟩)
      have hText : Assignment.source ⟨before ++ signs ++ behind, .bare value⟩ ++ following =
          before ++ signs ++ behind ++ (value ++ following) := by
        simp [Assignment.source, WrittenValue.source]
      rw [hText]
      simp only [readAssignment?, hLead, hValue]
  | @beforeBlank before signs behind rest blank mark lead isMark unclosed =>
      have hValue : readValue? (mark :: rest) = none :=
        readValue?_eq_none_iff.2 ⟨mark, rest, rfl, isMark, unclosed⟩
      have hBefore : readBeforeQuote? before signs (behind ++ [blank]) (mark :: rest) =
          some (⟨before ++ signs ++ behind, .bare []⟩, blank :: mark :: rest) :=
        (readBeforeQuote?_eq_some_iff lead).2 (.inl ⟨behind, blank, rfl, rfl, rfl⟩)
      have hText : Assignment.source ⟨before ++ signs ++ behind, .bare []⟩ ++
          blank :: mark :: rest = before ++ signs ++ (behind ++ [blank]) ++ mark :: rest := by
        simp [Assignment.source, WrittenValue.source]
      rw [hText]
      simp only [readAssignment?, splitLead?_quote lead isMark, hValue, hBefore]
  | @beforeSign before signs value following mark lead isMark goesOn stops unclosed =>
      have hMore : IsLead before (signs ++ ['=']) [] := lead.concat_sign
      have hValue : readValue? (mark :: (value ++ following)) = none :=
        readValue?_eq_none_iff.2 ⟨mark, value ++ following, rfl, isMark, unclosed⟩
      have hBefore : readBeforeQuote? before (signs ++ ['=']) [] (mark :: (value ++ following)) =
          some (⟨before ++ signs, .bare ('=' :: mark :: value)⟩, following) :=
        (readBeforeQuote?_eq_some_iff hMore).2
          (.inr ⟨signs, _, rfl, rfl, lead.signs_ne_nil, rfl,
            splitBareValue_sign isMark goesOn stops⟩)
      have hText : Assignment.source ⟨before ++ signs, .bare ('=' :: mark :: value)⟩ ++
          following = before ++ (signs ++ ['=']) ++ [] ++ mark :: (value ++ following) := by
        simp [Assignment.source, WrittenValue.source]
      rw [hText]
      simp only [readAssignment?, splitLead?_quote hMore isMark, hValue, hBefore]

/-- The reader takes an assignment exactly where it ends that way. -/
theorem readAssignment?_eq_some_iff {text following : List Char} {assignment : Assignment} :
    readAssignment? text = some (assignment, following) ↔
      text = assignment.source ++ following ∧ assignment.Ends following := by
  constructor
  · intro hRead
    exact ⟨(source_append_of_readAssignment? hRead).symm, ends_of_readAssignment? hRead⟩
  · rintro ⟨rfl, hEnds⟩
    exact readAssignment?_of_ends hEnds

/-- The reader takes no assignment where no equals sign follows, or a single one directly before a
quote that is never closed. -/
theorem readAssignment?_eq_none_iff {text : List Char} :
    readAssignment? text = none ↔
      Stops (fun c => c = '=') (splitBlank text).2 ∨
        ∃ before mark rest, text = before ++ '=' :: mark :: rest ∧
          (∀ c ∈ before, isBlank c = true) ∧ isQuote mark = true ∧ mark ∉ rest := by
  cases hLead : splitLead? text with
  | none =>
      simp only [readAssignment?, hLead, true_iff]
      exact .inl (splitLead?_eq_none_iff.1 hLead)
  | some found =>
      obtain ⟨⟨before, signs, behind⟩, rest⟩ := found
      obtain ⟨rfl, hIsLead, hStops⟩ := splitLead?_eq_some_iff.1 hLead
      have hSome : ¬ Stops (fun c => c = '=')
          (splitBlank (before ++ signs ++ behind ++ rest)).2 := by
        rw [← splitLead?_eq_none_iff, hLead]
        simp
      simp only [hSome, false_or]
      constructor
      · intro hRead
        simp only [readAssignment?, hLead] at hRead
        split at hRead
        · simp at hRead
        · rename_i hNone
          obtain ⟨mark, tail, rfl, hMark, hTail⟩ := readValue?_eq_none_iff.1 hNone
          unfold readBeforeQuote? at hRead
          split at hRead
          · simp at hRead
          · rename_i hLast
            have hBehind : behind = [] := List.getLast?_eq_none_iff.1 hLast
            split at hRead
            · simp at hRead
            · rename_i hMany
              obtain ⟨c, more, rfl⟩ := List.exists_cons_of_ne_nil hIsLead.signs_ne_nil
              cases more with
              | nil =>
                  have hSign := hIsLead.signs_eq c (List.mem_cons_self ..)
                  subst hSign hBehind
                  exact ⟨before, mark, tail, by simp, hIsLead.before_blank, hMark, hTail⟩
              | cons d more => simp at hMany
      · rintro ⟨blank, mark, tail, hText, hBlank, hMark, hTail⟩
        have hSame : splitLead? (before ++ signs ++ behind ++ rest) =
            some ((blank, ['='], []), mark :: tail) := by
          have hSingle : IsLead blank ['='] [] := ⟨hBlank, by simp, by simp, by simp⟩
          have hQuote := splitLead?_quote hSingle hMark tail
          rw [hText]
          simpa using hQuote
        simp only [readAssignment?, hSame, readValue?_eq_none_iff.2 ⟨mark, tail, rfl, hMark, hTail⟩]
        rfl

end AccessibleMarkup.Markup
