import AccessibleMarkup.Labelling
import AccessibleMarkup.Proofs.Assignment
import AccessibleMarkup.Proofs.Splicing

/-! The search for what looks like the tag of an input, as a relation between a text and the places
that are found in it. The search passes over one character or takes one tag, and all that is known
of the places is known by these two steps. -/
namespace AccessibleMarkup

open AccessibleMarkup.Markup
open AccessibleMarkup.Text

/-- What looks like the tag of an input goes up to the first `>`. -/
theorem inputTagAfter?_eq_some {text source : List Char}
    (hTag : inputTagAfter? text = some source) :
    ∃ body behind, text = body ++ '>' :: behind ∧ source = '<' :: body ++ ['>'] ∧ '>' ∉ body := by
  unfold inputTagAfter? at hTag
  split at hTag
  · split at hTag
    · obtain ⟨⟨body, behind⟩, hSplit, rfl⟩ := Option.map_eq_some_iff.1 hTag
      obtain ⟨hText, hEnd⟩ := splitAtFirst?_eq_some_iff.1 hSplit
      exact ⟨body, behind, hText, rfl, hEnd⟩
    · simp at hTag
  · simp at hTag

/-- What looks like the tag of an input is known by its end. -/
theorem inputTagAfter?_of_isSome {body behind : List Char} (hEnd : '>' ∉ body)
    (hSome : (inputTagAfter? (body ++ '>' :: behind)).isSome = true) :
    inputTagAfter? (body ++ '>' :: behind) = some ('<' :: body ++ ['>']) := by
  obtain ⟨source, hTag⟩ := Option.isSome_iff_exists.1 hSome
  obtain ⟨other, left, hText, rfl, hOther⟩ := inputTagAfter?_eq_some hTag
  have hFirst := splitAtFirst?_eq_some_iff.2 ⟨hText, hOther⟩
  rw [splitAtFirst?_eq_some_iff.2 ⟨rfl, hEnd⟩, Option.some.injEq, Prod.mk.injEq] at hFirst
  rw [hTag, hFirst.1]

/-- The search for inputs behind an offset. It passes over a character where none begins, and goes
on behind the first `>` where one does. -/
inductive FindsInputs : Nat → List Char → List PlacedTag → Prop where
  | nil (offset : Nat) : FindsInputs offset [] []
  | pass {offset : Nat} {c : Char} {rest : List Char} {found : List PlacedTag}
      (none : c = '<' → inputTagAfter? rest = none) (tail : FindsInputs (offset + 1) rest found) :
      FindsInputs offset (c :: rest) found
  | tag {offset : Nat} {body behind : List Char} {found : List PlacedTag}
      (looks : inputTagAfter? (body ++ '>' :: behind) = some ('<' :: body ++ ['>']))
      (tail : FindsInputs (offset + ('<' :: body ++ ['>']).length) behind found) :
      FindsInputs offset ('<' :: (body ++ '>' :: behind)) (⟨offset, '<' :: body ++ ['>']⟩ :: found)

/-- The search puts what it finds behind what was found before. -/
theorem exists_findsInputs (earlier : List PlacedTag) (offset : Nat) (text : List Char) :
    ∃ found, FindsInputs offset text found ∧
      inputTagsOnto earlier offset text = earlier.reverse ++ found := by
  fun_induction inputTagsOnto earlier offset text with
  | case1 earlier offset => exact ⟨[], .nil offset, (List.append_nil _).symm⟩
  | case2 earlier offset c rest source hTag ih =>
      split at hTag
      · rename_i hOpen
        subst hOpen
        obtain ⟨body, behind, rfl, rfl, -⟩ := inputTagAfter?_eq_some hTag
        have hDrop : (body ++ '>' :: behind).drop (('<' :: body ++ ['>']).length - 1) = behind := by
          simp
        rw [hDrop] at ih
        obtain ⟨found, hFinds, hFound⟩ := ih
        refine ⟨_, .tag hTag hFinds, ?_⟩
        rw [hDrop, hFound, List.reverse_cons, List.append_assoc]
        rfl
      · cases hTag
  | case3 earlier offset c rest hNone ih =>
      obtain ⟨found, hFinds, hFound⟩ := ih
      exact ⟨found, .pass (fun hOpen => by rwa [dif_pos hOpen] at hNone) hFinds, hFound⟩

/-- The search over a text goes as `FindsInputs` says. -/
theorem findsInputs_inputTagsOnto (offset : Nat) (text : List Char) :
    FindsInputs offset text (inputTagsOnto [] offset text) := by
  obtain ⟨found, hFinds, hFound⟩ := exists_findsInputs [] offset text
  rw [hFound]
  exact hFinds

namespace FindsInputs

variable {offset : Nat} {text : List Char} {found : List PlacedTag}

/-- The search has one outcome, whatever was found before. -/
theorem inputTagsOnto_eq (hFinds : FindsInputs offset text found) (earlier : List PlacedTag) :
    inputTagsOnto earlier offset text = earlier.reverse ++ found := by
  induction hFinds generalizing earlier with
  | nil => rw [inputTagsOnto, List.append_nil]
  | @pass offset c rest found none tail ih =>
      have hHere : (if c = '<' then inputTagAfter? rest else Option.none) = Option.none := by
        split
        · exact none ‹_›
        · rfl
      rw [inputTagsOnto.eq_def]
      simp only [hHere]
      exact ih earlier
  | @tag offset body behind found looks tail ih =>
      have hDrop : (body ++ '>' :: behind).drop (('<' :: body ++ ['>']).length - 1) = behind := by
        simp
      rw [inputTagsOnto.eq_def]
      simp only [if_true, looks, hDrop]
      rw [ih, List.reverse_cons, List.append_assoc]
      rfl

/-- There is no other way for a search to go. -/
theorem eq (hFinds : FindsInputs offset text found) : inputTagsOnto [] offset text = found :=
  hFinds.inputTagsOnto_eq []

/-- What is found does not depend on what was counted before. -/
theorem elsewhere (hFinds : FindsInputs offset text found) (start : Nat) :
    ∃ moved, FindsInputs start text moved ∧ moved.map (·.source) = found.map (·.source) := by
  induction hFinds generalizing start with
  | nil => exact ⟨[], .nil start, rfl⟩
  | pass none tail ih =>
      obtain ⟨moved, hMoved, hSame⟩ := ih (start + 1)
      exact ⟨moved, .pass none hMoved, hSame⟩
  | @tag offset body behind found looks tail ih =>
      obtain ⟨moved, hMoved, hSame⟩ := ih (start + ('<' :: body ++ ['>']).length)
      refine ⟨_, .tag looks hMoved, ?_⟩
      rw [List.map_cons, List.map_cons, hSame]

/-- Edits of the tags that are found stand one behind the other. -/
theorem fit (hFinds : FindsInputs offset text found) (write : PlacedTag → List Char) :
    FitBetween offset (offset + text.length)
      (found.map fun placed => ⟨placed.start, placed.stop, write placed⟩) := by
  induction hFinds with
  | nil => exact Nat.le_refl _
  | @pass offset c rest found none tail ih =>
      rw [List.length_cons, Nat.add_comm rest.length, ← Nat.add_assoc]
      exact ih.of_le (Nat.le_add_right _ _)
  | @tag offset body behind found looks tail ih =>
      have hStop : offset + ('<' :: (body ++ '>' :: behind)).length =
          offset + ('<' :: body ++ ['>']).length + behind.length := by
        simp only [List.length_cons, List.length_append, List.length_nil]
        omega
      rw [hStop]
      exact ⟨Nat.le_refl _, Nat.le_add_right _ _, ih⟩

/-- What is found looks like the tag of an input where it stands. -/
theorem exists_of_mem (hFinds : FindsInputs offset text found) {placed : PlacedTag}
    (hMem : placed ∈ found) :
    ∃ front rest, text = front ++ '<' :: rest ∧ placed.start = offset + front.length ∧
      inputTagAfter? rest = some placed.source := by
  induction hFinds with
  | nil => cases hMem
  | @pass offset c rest found none tail ih =>
      obtain ⟨front, later, rfl, hStart, hTag⟩ := ih hMem
      refine ⟨c :: front, later, rfl, ?_, hTag⟩
      rw [hStart, List.length_cons]
      omega
  | @tag offset body behind found looks tail ih =>
      rcases List.mem_cons.1 hMem with rfl | hMem
      · exact ⟨[], _, rfl, rfl, looks⟩
      · obtain ⟨front, later, rfl, hStart, hTag⟩ := ih hMem
        refine ⟨('<' :: body ++ ['>']) ++ front, later, by simp, ?_, hTag⟩
        rw [hStart, Nat.add_assoc, ← List.length_append]

/-- What looks like the tag of an input is found, unless what was found before reaches beyond the
place where it begins. -/
theorem complete (hFinds : FindsInputs offset text found) {front rest source : List Char}
    (hText : text = front ++ '<' :: rest) (hTag : inputTagAfter? rest = some source) :
    ∃ placed ∈ found, placed = ⟨offset + front.length, source⟩ ∨
      placed.start < offset + front.length ∧ offset + front.length < placed.stop := by
  induction hFinds generalizing front with
  | nil => simp at hText
  | @pass offset c text found none tail ih =>
      cases front with
      | nil =>
          obtain ⟨rfl, rfl⟩ := List.cons.inj hText
          rw [none rfl] at hTag
          cases hTag
      | cons d front =>
          obtain ⟨placed, hMem, hFind⟩ := ih (List.cons.inj hText).2
          rw [Nat.add_right_comm] at hFind
          exact ⟨placed, hMem, hFind⟩
  | @tag offset body behind found looks tail ih =>
      cases front with
      | nil =>
          obtain ⟨-, rfl⟩ := List.cons.inj hText
          rw [looks, Option.some.injEq] at hTag
          exact ⟨_, List.mem_cons_self .., .inl (by rw [hTag]; rfl)⟩
      | cons d front =>
          obtain ⟨rfl, hBehind⟩ := List.cons.inj hText
          by_cases hWithin : ('<' :: front).length < ('<' :: body ++ ['>']).length
          · refine ⟨_, List.mem_cons_self .., .inr ⟨by simp, ?_⟩⟩
            exact Nat.add_lt_add_left hWithin _
          · have hWhole : (body ++ ['>']) ++ behind = front ++ '<' :: rest := by
              rw [List.append_assoc]
              exact hBehind
            obtain ⟨more, rfl⟩ : body ++ ['>'] <+: front :=
              List.prefix_of_prefix_length_le ⟨behind, hWhole⟩ ⟨_, rfl⟩ (by simpa using hWithin)
            rw [List.append_assoc (body ++ ['>']) more] at hWhole
            obtain ⟨placed, hMem, hFind⟩ := ih (List.append_cancel_left hWhole)
            have hPlace : offset + ('<' :: body ++ ['>']).length + more.length =
                offset + ('<' :: (body ++ ['>'] ++ more)).length := by
              simp only [List.length_cons, List.length_append, List.length_nil]
              omega
            rw [hPlace] at hFind
            exact ⟨placed, List.mem_cons_of_mem _ hMem, hFind⟩

end FindsInputs

/-- What the search finds looks like the tag of an input where it stands. -/
theorem exists_of_mem_inputTags {text : List Char} {placed : PlacedTag}
    (hMem : placed ∈ inputTags text) :
    ∃ front rest, text = front ++ '<' :: rest ∧ placed.start = front.length ∧
      inputTagAfter? rest = some placed.source := by
  simpa using (findsInputs_inputTagsOnto 0 text).exists_of_mem hMem

end AccessibleMarkup
