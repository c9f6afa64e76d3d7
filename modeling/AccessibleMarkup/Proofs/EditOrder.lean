import AccessibleMarkup.Proofs.Splicing
import Mathlib.Algebra.BigOperators.Group.List.Basic
import Mathlib.Algebra.Ring.Int.Defs

/-! Edits in any order. Carrying them out looks at the place where the edit behind begins and at
nothing else; that is enough to find every overlap. Edits that do not overlap leave the gaps of the
text between them alone, so the order in which they are listed does not matter. -/
namespace AccessibleMarkup.Markup

open AccessibleMarkup.Text

/-- Some edit ends behind a text of that length, or behind the start of an edit that starts later
than it does. -/
def Overlapping (length : Nat) (edits : List Edit) : Prop :=
  ∃ edit ∈ edits, length < edit.stop ∨
    ∃ later ∈ edits, edit.start < later.start ∧ later.start < edit.stop

def firstFirst (edits : List Edit) : List Edit :=
  edits.mergeSort fun one other => one.start ≤ other.start

/-- The gaps of a text between edits from an offset on, with the replacements between the gaps. -/
def frontToBack (text : List Char) (offset : Nat) : List Edit → List Char
  | [] => text.drop offset
  | edit :: rest =>
    slice text offset edit.start ++ edit.replacement ++ frontToBack text edit.stop rest

/-- How many characters longer an edit makes the text. -/
def Edit.growth (edit : Edit) : Int :=
  edit.replacement.length - ((edit.stop : Int) - edit.start)

theorem firstFirst_perm (edits : List Edit) : (firstFirst edits).Perm edits :=
  List.mergeSort_perm _ _

/-- Edits that stand one behind the other leave the gaps between them and put in what replaces the
rest. -/
theorem splicedFrom_drop {text : List Char} {edits : List Edit} {offset stop : Nat}
    (hFit : FitBetween offset stop edits) :
    splicedFrom offset (text.drop offset) edits = frontToBack text offset edits := by
  induction edits generalizing offset with
  | nil => rfl
  | cons edit rest ih =>
      obtain ⟨hStart, hOrder, hRest⟩ := hFit
      have hBehind : (text.drop offset).drop (edit.stop - offset) = text.drop edit.stop := by
        rw [List.drop_drop, Nat.add_sub_cancel' (by omega)]
      rw [splicedFrom, hBehind, ih hRest]
      rfl

/-- An edit among those that fit does not end before it starts. -/
theorem FitBetween.start_le_stop {start stop : Nat} {edits : List Edit}
    (hFit : FitBetween start stop edits) {edit : Edit} (hMem : edit ∈ edits) :
    edit.start ≤ edit.stop := by
  induction edits generalizing start with
  | nil => simp at hMem
  | cons first rest ih =>
      rcases List.mem_cons.1 hMem with rfl | hMem
      · exact hFit.2.1
      · exact ih hFit.2.2 hMem

/-- Of two edits that fit, the one that starts first ends before the other starts. -/
theorem FitBetween.stop_le_start {start stop : Nat} {edits : List Edit}
    (hFit : FitBetween start stop edits) {edit later : Edit} (hEdit : edit ∈ edits)
    (hLater : later ∈ edits) (hLess : edit.start < later.start) : edit.stop ≤ later.start := by
  induction edits generalizing start with
  | nil => simp at hEdit
  | cons first rest ih =>
      obtain ⟨-, hOrder, hRest⟩ := hFit
      rcases List.mem_cons.1 hEdit with hFirst | hEditRest
      · subst hFirst
        rcases List.mem_cons.1 hLater with hSame | hLaterRest
        · subst hSame
          omega
        · exact (hRest.within hLaterRest).1
      · rcases List.mem_cons.1 hLater with hFirst | hLaterRest
        · subst hFirst
          have hBehind := (hRest.within hEditRest).1
          omega
        · exact ih hRest hEditRest hLaterRest

/-- Edits that stand one behind the other within the text do not overlap. -/
theorem FitBetween.not_overlapping {length : Nat} {edits : List Edit}
    (hFit : FitBetween 0 length edits) : ¬ Overlapping length edits := by
  rintro ⟨edit, hEdit, hBehind | ⟨later, hLater, hLess, hOver⟩⟩
  · have hWithin := (hFit.within hEdit).2
    omega
  · have hStop := hFit.stop_le_start hEdit hLater hLess
    omega

/-- Edits in the order of their starts fit where no edit overlaps the next ones. -/
theorem fitBetween_of_pairwise {start stop : Nat} {edits : List Edit} (hStart : start ≤ stop)
    (hOrder : ∀ edit ∈ edits, edit.start ≤ edit.stop)
    (hWithin : ∀ edit ∈ edits, start ≤ edit.start ∧ edit.stop ≤ stop)
    (hApart : edits.Pairwise fun one other => one.stop ≤ other.start) :
    FitBetween start stop edits := by
  induction edits generalizing start with
  | nil => exact hStart
  | cons edit rest ih =>
      obtain ⟨hBehind, hRest⟩ := List.pairwise_cons.1 hApart
      obtain ⟨hFirst, hStop⟩ := hWithin edit (List.mem_cons_self ..)
      refine ⟨hFirst, hOrder edit (List.mem_cons_self ..), ih hStop ?_ ?_ hRest⟩
      · exact fun other hMem => hOrder other (List.mem_cons_of_mem _ hMem)
      · exact fun other hMem => ⟨hBehind other hMem, (hWithin other (List.mem_cons_of_mem _ hMem)).2⟩

/-- The text grows by what each edit adds to it. -/
theorem length_frontToBack {text : List Char} {edits : List Edit} {offset : Nat}
    (hFit : FitBetween offset text.length edits) :
    ((frontToBack text offset edits).length : Int) =
      text.length - offset + (edits.map Edit.growth).sum := by
  induction edits generalizing offset with
  | nil =>
      have hOffset := hFit.le
      simp only [frontToBack, List.length_drop, List.map_nil, List.sum_nil]
      omega
  | cons edit rest ih =>
      obtain ⟨hStart, hOrder, hRest⟩ := hFit
      have hTail := ih hRest
      have hStop := hRest.le
      simp only [frontToBack, List.length_append, length_slice (Nat.le_trans hOrder hStop),
        List.map_cons, List.sum_cons, Edit.growth] at hTail ⊢
      omega

/-- A character that no edit takes out is moved by the edits before it and stays as it is. -/
theorem getElem?_frontToBack {text : List Char} {edits : List Edit} {offset index : Nat}
    (hFit : FitBetween offset text.length edits) (hOffset : offset ≤ index)
    (hKept : ∀ edit ∈ edits, index < edit.start ∨ edit.stop ≤ index) :
    ∃ place : Nat, (place : Int) =
        index - offset + ((edits.filter fun edit => edit.stop ≤ index).map Edit.growth).sum ∧
      (frontToBack text offset edits)[place]? = text[index]? := by
  induction edits generalizing offset with
  | nil =>
      refine ⟨index - offset, ?_, ?_⟩
      · simp only [List.filter_nil, List.map_nil, List.sum_nil]
        omega
      · rw [frontToBack, List.getElem?_drop, Nat.add_sub_cancel' hOffset]
  | cons edit rest ih =>
      obtain ⟨hStart, hOrder, hRest⟩ := hFit
      have hStop := hRest.le
      have hLength : (slice text offset edit.start).length = edit.start - offset :=
        length_slice (Nat.le_trans hOrder hStop)
      rcases hKept edit (List.mem_cons_self ..) with hBefore | hBehind
      · have hNone : ((edit :: rest).filter fun edit => edit.stop ≤ index) = [] := by
          refine List.filter_eq_nil_iff.2 fun other hMem => ?_
          simp only [decide_eq_true_eq]
          rcases List.mem_cons.1 hMem with rfl | hMem
          · omega
          · have hLater := (hRest.within hMem).1
            have hOther := hRest.start_le_stop hMem
            omega
        refine ⟨index - offset, ?_, ?_⟩
        · rw [hNone, List.map_nil, List.sum_nil]
          omega
        · rw [frontToBack, List.append_assoc, List.getElem?_append_left (by omega), slice,
            List.getElem?_take_of_lt (by omega), List.getElem?_drop, Nat.add_sub_cancel' hOffset]
      · obtain ⟨place, hPlace, hChar⟩ :=
          ih hRest hBehind fun other hMem => hKept other (List.mem_cons_of_mem _ hMem)
        refine ⟨edit.start - offset + edit.replacement.length + place, ?_, ?_⟩
        · rw [List.filter_cons_of_pos (by simpa using hBehind), List.map_cons, List.sum_cons,
            Edit.growth]
          omega
        · rw [frontToBack, List.getElem?_append_right (by simp only [List.length_append]; omega),
            List.length_append, hLength, Nat.add_sub_cancel_left, hChar]

/-- Edits that do not fit are refused: going back, one of them is the first that does not. -/
theorem spliceInOrder_reverse_error {limit : Nat} {text : List Char} {edits : List Edit}
    (hOrder : ∀ edit ∈ edits, edit.start ≤ edit.stop) (hOverlap : ¬ FitBetween 0 limit edits) :
    ∃ fragment, spliceInOrder limit text edits.reverse = .error (.overlappingEdits fragment) := by
  induction edits using List.reverseRecOn generalizing limit text with
  | nil => exact absurd (Nat.zero_le limit) hOverlap
  | append_singleton edits edit ih =>
      rw [List.reverse_append, List.reverse_singleton, List.singleton_append, spliceInOrder]
      split
      · exact ⟨_, rfl⟩
      · rename_i hStop
        refine ih (fun other hMem => hOrder other (List.mem_append_left _ hMem)) fun hFit => ?_
        exact hOverlap (fitBetween_concat.2 ⟨hFit, hOrder edit (by simp), by omega⟩)

section
variable {edits : List Edit}
  (hApart : edits.Pairwise fun one other => one.start ≠ other.start)
include hApart

/-- Edits with different starts are in strict order once they are sorted. -/
theorem pairwise_firstFirst :
    (firstFirst edits).Pairwise fun one other => one.start < other.start := by
  have hSorted : (firstFirst edits).Pairwise
      fun one other => decide (one.start ≤ other.start) = true :=
    List.pairwise_mergeSort
      (fun one other third hOne hOther => by
        simp only [decide_eq_true_eq] at *
        omega)
      (fun one other => by
        simp only [Bool.or_eq_true, decide_eq_true_eq]
        omega) edits
  have hStarts : (firstFirst edits).Pairwise fun one other => one.start ≠ other.start :=
    (firstFirst_perm edits).symm.pairwise hApart fun hOne => hOne.symm
  refine (hSorted.and hStarts).imp fun hBoth => ?_
  simp only [decide_eq_true_eq] at hBoth
  omega

/-- The order in which edits are listed is lost when they are sorted. -/
theorem splice_of_perm {listed : List Edit} (hPerm : listed.Perm edits) (text : List Char) :
    splice text listed = spliceInOrder text.length text (firstFirst edits).reverse := by
  have hSort := mergeSort_eq_reverse Edit.start
    (hPerm.trans (firstFirst_perm edits).symm) (pairwise_firstFirst hApart)
  rw [splice_eq, lastFirst, hSort]

/-- Sorted edits stand one behind the other within the text exactly where no two of them overlap and
none ends behind the text. -/
theorem fitBetween_firstFirst_iff (hOrder : ∀ edit ∈ edits, edit.start ≤ edit.stop)
    (length : Nat) : FitBetween 0 length (firstFirst edits) ↔ ¬ Overlapping length edits := by
  have hMem (edit : Edit) : edit ∈ firstFirst edits ↔ edit ∈ edits := (firstFirst_perm edits).mem_iff
  have hSame : Overlapping length (firstFirst edits) ↔ Overlapping length edits := by
    simp only [Overlapping, hMem]
  constructor
  · exact fun hFit hOverlap => hFit.not_overlapping (hSame.2 hOverlap)
  · intro hNone
    have hStop : ∀ edit ∈ firstFirst edits, edit.stop ≤ length := by
      intro edit hEdit
      by_contra hBehind
      exact hNone ⟨edit, (hMem edit).1 hEdit, .inl (by omega)⟩
    refine fitBetween_of_pairwise (Nat.zero_le _)
      (fun edit hEdit => hOrder edit ((hMem edit).1 hEdit))
      (fun edit hEdit => ⟨Nat.zero_le _, hStop edit hEdit⟩) ?_
    refine (pairwise_firstFirst hApart).imp_of_mem fun {one other} hOne hOther hLess => ?_
    by_contra hOver
    exact hNone ⟨one, (hMem one).1 hOne, .inr ⟨other, (hMem other).1 hOther, hLess, by omega⟩⟩

end

/-- Edits that start at different places, in any order: they are refused exactly where they
overlap. Where they do not, the gaps of the text and the replacements stand in the result one behind
the other, so the result is longer by what each edit adds, and every character that no edit takes
out is there, moved by the edits before it. The order in which the edits are listed does not
matter. -/
theorem splice_in_any_order (text : List Char) {edits : List Edit}
    (hOrder : ∀ edit ∈ edits, edit.start ≤ edit.stop)
    (hApart : edits.Pairwise fun one other => one.start ≠ other.start) :
    ((∃ fragment, splice text edits = .error (.overlappingEdits fragment)) ↔
        Overlapping text.length edits) ∧
      (¬ Overlapping text.length edits →
        ∃ out, splice text edits = .ok out ∧ out = frontToBack text 0 (firstFirst edits) ∧
          (out.length : Int) = text.length + (edits.map Edit.growth).sum ∧
          ∀ index, (∀ edit ∈ edits, index < edit.start ∨ edit.stop ≤ index) →
            ∃ place : Nat, (place : Int) =
                index + ((edits.filter fun edit => edit.stop ≤ index).map Edit.growth).sum ∧
              out[place]? = text[index]?) ∧
      ∀ listed, listed.Perm edits → splice text listed = splice text edits := by
  have hSplice := splice_of_perm hApart (List.Perm.refl edits) text
  have hIff := fitBetween_firstFirst_iff hApart hOrder text.length
  have hPerm := firstFirst_perm edits
  have hGoes (hFit : FitBetween 0 text.length (firstFirst edits)) :
      splice text edits = .ok (frontToBack text 0 (firstFirst edits)) := by
    rw [hSplice, spliceInOrder_reverse hFit (Nat.le_refl _), ← splicedFrom_drop hFit,
      List.drop_zero]
  refine ⟨⟨fun hError => ?_, fun hOverlap => ?_⟩, fun hNone => ?_, fun listed hListed => ?_⟩
  · obtain ⟨fragment, hError⟩ := hError
    by_contra hNone
    rw [hGoes (hIff.2 hNone)] at hError
    cases hError
  · rw [hSplice]
    exact spliceInOrder_reverse_error (fun edit hMem => hOrder edit (hPerm.mem_iff.1 hMem))
      fun hFit => hIff.1 hFit hOverlap
  · have hFit := hIff.2 hNone
    refine ⟨_, hGoes hFit, rfl, ?_, fun index hKept => ?_⟩
    · rw [length_frontToBack hFit, (hPerm.map Edit.growth).sum_eq]
      omega
    · obtain ⟨place, hPlace, hChar⟩ := getElem?_frontToBack hFit (Nat.zero_le index)
        fun edit hMem => hKept edit (hPerm.mem_iff.1 hMem)
      refine ⟨place, ?_, hChar⟩
      rw [hPlace, ((hPerm.filter _).map Edit.growth).sum_eq]
      omega
  · rw [splice_of_perm hApart hListed, hSplice]

/-- Two edits that touch, listed back to front. -/
theorem splice_touching_edits :
    splice "abcd".toList [⟨2, 4, ['x']⟩, ⟨0, 2, "yyy".toList⟩] = .ok "yyyx".toList := by
  obtain ⟨-, hGoes, hAny⟩ :=
    @splice_in_any_order "abcd".toList [⟨0, 2, "yyy".toList⟩, ⟨2, 4, ['x']⟩] (by decide) (by decide)
  obtain ⟨out, hOut, rfl, -⟩ := hGoes (by unfold Overlapping; decide)
  have hSorted : firstFirst [⟨0, 2, "yyy".toList⟩, ⟨2, 4, ['x']⟩] =
      [⟨0, 2, "yyy".toList⟩, ⟨2, 4, ['x']⟩] := List.mergeSort_of_pairwise (by decide)
  rw [hAny _ (List.Perm.swap ..), hOut, hSorted]
  decide +kernel

end AccessibleMarkup.Markup
