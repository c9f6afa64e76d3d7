/-!
Cutting a text in two. Every reader of this library takes a longest run off the front of the
text, and whether a character still belongs to the run may hang on what follows it, so the test
sees the rest of the text too. The two parts always join to the text that was cut.
-/
namespace AccessibleMarkup.Text

/-- A test on a character and the text behind it. -/
abbrev RunTest := Char → List Char → Bool

/-- `splitRun` with the part already taken, last character first. -/
def splitRunOnto (keep : RunTest) (taken : List Char) : List Char → List Char × List Char
  | [] => (taken.reverse, [])
  | c :: rest =>
    if keep c rest then splitRunOnto keep (c :: taken) rest else (taken.reverse, c :: rest)

/-- The longest run at the front of the text that passes the test, and what is left. -/
def splitRun (keep : RunTest) (text : List Char) : List Char × List Char :=
  splitRunOnto keep [] text

/-- Characters that were taken before stand in front of the run that is still to be taken. -/
theorem splitRunOnto_eq (keep : RunTest) (taken text : List Char) :
    splitRunOnto keep taken text =
      (taken.reverse ++ (splitRun keep text).1, (splitRun keep text).2) := by
  induction text generalizing taken with
  | nil => simp [splitRunOnto, splitRun]
  | cons c rest ih =>
      cases hKeep : keep c rest with
      | false => simp [splitRunOnto, splitRun, hKeep]
      | true =>
          simp only [splitRunOnto, splitRun, hKeep, if_true]
          rw [ih (c :: taken), ih [c]]
          simp

@[simp] theorem splitRun_nil (keep : RunTest) : splitRun keep [] = ([], []) := rfl

theorem splitRun_cons (keep : RunTest) (c : Char) (rest : List Char) :
    splitRun keep (c :: rest) =
      if keep c rest then (c :: (splitRun keep rest).1, (splitRun keep rest).2)
      else ([], c :: rest) := by
  cases hKeep : keep c rest with
  | false => simp [splitRun, splitRunOnto, hKeep]
  | true =>
      simp only [splitRun, splitRunOnto, hKeep, if_true]
      rw [splitRunOnto_eq]
      simp [splitRun]

/-- Nothing is lost and nothing is moved. -/
theorem splitRun_append (keep : RunTest) (text : List Char) :
    (splitRun keep text).1 ++ (splitRun keep text).2 = text := by
  induction text with
  | nil => rfl
  | cons c rest ih =>
      rw [splitRun_cons]
      split
      · simp [ih]
      · rfl

/-- A test that sees the character alone holds throughout the run. -/
theorem forall_mem_splitRun (test : Char → Bool) {text : List Char} {c : Char}
    (hMem : c ∈ (splitRun (fun c _ => test c) text).1) : test c = true := by
  induction text with
  | nil => simp at hMem
  | cons d rest ih =>
      rw [splitRun_cons] at hMem
      split at hMem
      · rename_i hTest
        rcases List.mem_cons.1 hMem with rfl | hRest
        · exact hTest
        · exact ih hRest
      · simp at hMem

/-- The run stops only where the test fails or the text ends. -/
theorem splitRun_stops (keep : RunTest) {text : List Char} {c : Char} {rest : List Char}
    (hRest : (splitRun keep text).2 = c :: rest) : keep c rest = false := by
  induction text with
  | nil => simp at hRest
  | cons d tail ih =>
      rw [splitRun_cons] at hRest
      split at hRest
      · exact ih hRest
      · rename_i hKeep
        cases hRest
        simpa using hKeep

/-- The text before and behind the first character that is `mark`, or `none` without one. -/
def splitAtFirst? (mark : Char) (text : List Char) : Option (List Char × List Char) :=
  if text.contains mark then
    match splitRun (fun c _ => c != mark) text with
    | (_, []) => none
    | (before, _ :: rest) => some (before, rest)
  else none

/-- The mark and what stands around it make up the text. -/
theorem splitAtFirst?_eq_some {mark : Char} {text before rest : List Char}
    (hSplit : splitAtFirst? mark text = some (before, rest)) :
    text = before ++ mark :: rest := by
  unfold splitAtFirst? at hSplit
  split at hSplit
  · split at hSplit
    · simp at hSplit
    · rename_i found c tail hRun
      have hRest : (splitRun (fun c _ => c != mark) text).2 = c :: tail := by rw [hRun]
      have hStop := splitRun_stops (fun c _ => c != mark) hRest
      have hJoin := splitRun_append (fun c _ => c != mark) text
      simp only [Option.some.injEq, Prod.mk.injEq] at hSplit
      obtain ⟨rfl, rfl⟩ := hSplit
      rw [hRun] at hJoin
      have hMark : c = mark := by simpa using hStop
      simpa [hMark] using hJoin.symm
  · simp at hSplit

/-- There is no such cut only in a text without the character. -/
theorem splitAtFirst?_eq_none_iff {mark : Char} {text : List Char} :
    splitAtFirst? mark text = none ↔ mark ∉ text := by
  constructor
  · intro hNone hMem
    unfold splitAtFirst? at hNone
    rw [if_pos (by simpa using hMem)] at hNone
    split at hNone
    · rename_i found hRun
      have hJoin := splitRun_append (fun c _ => c != mark) text
      rw [hRun, List.append_nil] at hJoin
      rw [← hJoin] at hMem
      have hRunMem : mark ∈ (splitRun (fun c _ => c != mark) text).1 := by rw [hRun]; exact hMem
      have hTest := forall_mem_splitRun (fun c => c != mark) hRunMem
      simp at hTest
    · simp at hNone
  · intro hMem
    unfold splitAtFirst?
    rw [if_neg (by simpa using hMem)]

end AccessibleMarkup.Text
