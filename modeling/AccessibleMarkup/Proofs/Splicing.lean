import AccessibleMarkup.Markup.Edit
import AccessibleMarkup.Proofs.Openings
import Mathlib.Data.List.Induction

/-! Edits carried out from the last to the first, compared with copying the text from front to back
and writing the replacements in between. Where the edits stand one behind the other both give the
same text, and edits of opening tags do nothing but write these tags anew. -/
namespace AccessibleMarkup.Markup

open AccessibleMarkup.Text

/-- Edits stand one behind the other between two offsets. -/
def FitBetween (start stop : Nat) : List Edit → Prop
  | [] => start ≤ stop
  | edit :: rest => start ≤ edit.start ∧ edit.start ≤ edit.stop ∧ FitBetween edit.stop stop rest

/-- The text behind an offset, copied from front to back with the replacements in place. -/
def splicedFrom (offset : Nat) (text : List Char) : List Edit → List Char
  | [] => text
  | edit :: rest =>
    text.take (edit.start - offset) ++ edit.replacement ++
      splicedFrom edit.stop (text.drop (edit.stop - offset)) rest

theorem take_append_slice {start stop : Nat} (hOrder : start ≤ stop) (text : List Char) :
    text.take start ++ slice text start stop = text.take stop := by
  rw [slice, ← List.take_add, Nat.add_sub_cancel' hOrder]

theorem slice_append_drop {start stop : Nat} (hOrder : start ≤ stop) (text : List Char) :
    slice text start stop ++ text.drop stop = text.drop start := by
  have hBehind : text.drop stop = (text.drop start).drop (stop - start) := by
    rw [List.drop_drop, Nat.add_sub_cancel' hOrder]
  rw [slice, hBehind, List.take_append_drop]

theorem length_slice {text : List Char} {start stop : Nat} (hStop : stop ≤ text.length) :
    (slice text start stop).length = stop - start := by
  simp only [slice, List.length_take, List.length_drop]
  omega

theorem FitBetween.le {start stop : Nat} {edits : List Edit} (hFit : FitBetween start stop edits) :
    start ≤ stop := by
  induction edits generalizing start with
  | nil => exact hFit
  | cons edit rest ih => exact Nat.le_trans hFit.1 (Nat.le_trans hFit.2.1 (ih hFit.2.2))

theorem FitBetween.of_le {start other stop : Nat} {edits : List Edit}
    (hFit : FitBetween start stop edits) (hStart : other ≤ start) :
    FitBetween other stop edits := by
  cases edits with
  | nil => exact Nat.le_trans hStart hFit
  | cons edit rest => exact ⟨Nat.le_trans hStart hFit.1, hFit.2⟩

/-- Some of the edits stand one behind the other if all of them do. -/
theorem FitBetween.sublist {start stop : Nat} {edits fewer : List Edit}
    (hFit : FitBetween start stop edits) (hSublist : fewer.Sublist edits) :
    FitBetween start stop fewer := by
  induction hSublist generalizing start with
  | slnil => exact hFit
  | cons edit _ ih => exact ih (hFit.2.2.of_le (Nat.le_trans hFit.1 hFit.2.1))
  | cons_cons edit _ ih => exact ⟨hFit.1, hFit.2.1, ih hFit.2.2⟩

/-- Edits of something that stand one behind the other come in order. -/
theorem FitBetween.pairwise {start stop : Nat} {edits : List Edit}
    (hFit : FitBetween start stop edits) (hEach : ∀ edit ∈ edits, edit.start < edit.stop) :
    (∀ edit ∈ edits, start ≤ edit.start) ∧
      edits.Pairwise fun one other => one.start < other.start := by
  induction edits generalizing start with
  | nil => simp
  | cons edit rest ih =>
      obtain ⟨hStart, hOrder, hRest⟩ := hFit
      obtain ⟨hBehind, hPairwise⟩ := ih hRest fun other hMem =>
        hEach other (List.mem_cons_of_mem _ hMem)
      have hEdit := hEach edit (List.mem_cons_self ..)
      refine ⟨?_, List.pairwise_cons.2 ⟨?_, hPairwise⟩⟩
      · intro other hMem
        rcases List.mem_cons.1 hMem with rfl | hMem
        · exact hStart
        · have := hBehind other hMem
          omega
      · intro other hMem
        have := hBehind other hMem
        omega

/-- No edit reaches beyond the two offsets. -/
theorem FitBetween.within {start stop : Nat} {edits : List Edit}
    (hFit : FitBetween start stop edits) {edit : Edit} (hMem : edit ∈ edits) :
    start ≤ edit.start ∧ edit.stop ≤ stop := by
  induction edits generalizing start with
  | nil => simp at hMem
  | cons first rest ih =>
      obtain ⟨hStart, hOrder, hRest⟩ := hFit
      rcases List.mem_cons.1 hMem with rfl | hMem
      · exact ⟨hStart, hRest.le⟩
      · obtain ⟨hBehind, hStop⟩ := ih hRest hMem
        exact ⟨by omega, hStop⟩

theorem fitBetween_concat {start stop : Nat} {edits : List Edit} {edit : Edit} :
    FitBetween start stop (edits ++ [edit]) ↔
      FitBetween start edit.start edits ∧ edit.start ≤ edit.stop ∧ edit.stop ≤ stop := by
  induction edits generalizing start with
  | nil => simp [FitBetween]
  | cons other rest ih => simp [FitBetween, ih, and_assoc]

/-- The last edit may as well be carried out first. -/
theorem splicedFrom_concat {offset : Nat} {text : List Char} {edits : List Edit} {edit : Edit}
    (hFit : FitBetween offset edit.start edits) (hOrder : edit.start ≤ edit.stop)
    (hStop : edit.stop ≤ offset + text.length) :
    splicedFrom offset text (edits ++ [edit]) =
      splicedFrom offset (text.take (edit.start - offset) ++ edit.replacement ++
        text.drop (edit.stop - offset)) edits := by
  induction edits generalizing offset text with
  | nil => rfl
  | cons other rest ih =>
      obtain ⟨hStart, hOther, hRest⟩ := hFit
      have hBetween := hRest.le
      rw [List.cons_append, splicedFrom, splicedFrom,
        ih hRest (by simp only [List.length_drop]; omega)]
      have hTake : (text.take (edit.start - offset) ++ edit.replacement ++
          text.drop (edit.stop - offset)).take (other.start - offset) =
          text.take (other.start - offset) := by
        rw [List.append_assoc, List.take_append_of_le_length (by simp; omega), List.take_take,
          Nat.min_eq_left (by omega)]
      have hDrop : (text.take (edit.start - offset) ++ edit.replacement ++
          text.drop (edit.stop - offset)).drop (other.stop - offset) =
          (text.drop (other.stop - offset)).take (edit.start - other.stop) ++ edit.replacement ++
            (text.drop (other.stop - offset)).drop (edit.stop - other.stop) := by
        have hCut : edit.start - offset - (other.stop - offset) = edit.start - other.stop := by
          omega
        have hRemains : other.stop - offset + (edit.stop - other.stop) = edit.stop - offset := by
          omega
        rw [List.append_assoc, List.drop_append_of_le_length (by simp; omega), List.drop_take, hCut,
          List.drop_drop, hRemains, List.append_assoc]
      rw [hTake, hDrop]

/-- Edits that stand one behind the other are carried out, and give what copying gives. -/
theorem spliceInOrder_reverse {limit : Nat} {buffer : List Char} {edits : List Edit}
    (hFit : FitBetween 0 limit edits) (hLimit : limit ≤ buffer.length) :
    spliceInOrder limit buffer edits.reverse = .ok (splicedFrom 0 buffer edits) := by
  induction edits using List.reverseRecOn generalizing limit buffer with
  | nil => rfl
  | append_singleton edits edit ih =>
      obtain ⟨hEdits, hOrder, hStop⟩ := fitBetween_concat.1 hFit
      rw [List.reverse_append, List.reverse_singleton, List.singleton_append, spliceInOrder,
        if_neg (by omega), ih hEdits (by simp; omega),
        splicedFrom_concat hEdits hOrder (by omega)]
      rfl

/-- Sorting by where things start puts the last one first, whatever the order they come in. -/
theorem mergeSort_eq_reverse {α : Type} (start : α → Nat) {list ordered : List α}
    (hPerm : list.Perm ordered)
    (hOrdered : ordered.Pairwise fun one other => start one < start other) :
    (list.mergeSort fun one other => start other ≤ start one) = ordered.reverse := by
  have hSorted : (list.mergeSort fun one other => start other ≤ start one).Pairwise
      fun one other => decide (start other ≤ start one) = true :=
    List.pairwise_mergeSort
      (fun one other third hOne hOther => by
        simp only [decide_eq_true_eq] at *
        omega)
      (fun one other => by
        simp only [Bool.or_eq_true, decide_eq_true_eq]
        omega) list
  have hReverse : ordered.reverse.Pairwise fun one other =>
      decide (start other ≤ start one) = true := by
    rw [List.pairwise_reverse]
    exact hOrdered.imp fun hLess => by
      simp only [decide_eq_true_eq]
      omega
  refine List.Perm.eq_of_pairwise ?_ hSorted hReverse
    ((List.mergeSort_perm _ _).trans (hPerm.trans (List.reverse_perm _).symm))
  intro one other hOne hOther hLess hMore
  simp only [decide_eq_true_eq] at hLess hMore
  have hOneMem : one ∈ ordered := hPerm.mem_iff.1 (List.mem_mergeSort.1 hOne)
  have hOtherMem : other ∈ ordered := List.mem_reverse.1 hOther
  obtain ⟨index, hIndex, rfl⟩ := List.mem_iff_getElem.1 hOneMem
  obtain ⟨place, hPlace, rfl⟩ := List.mem_iff_getElem.1 hOtherMem
  have hStarts := List.pairwise_iff_getElem.1 hOrdered
  rcases Nat.lt_trichotomy index place with hBefore | rfl | hBehind
  · have := hStarts index place hIndex hPlace hBefore
    omega
  · rfl
  · have := hStarts place index hPlace hIndex hBehind
    omega

/-- What starts behind a piece of the text leaves the piece alone. -/
theorem splicedFrom_append {offset stop : Nat} {front text : List Char} {edits : List Edit}
    (hFit : FitBetween (offset + front.length) stop edits) :
    splicedFrom offset (front ++ text) edits =
      front ++ splicedFrom (offset + front.length) text edits := by
  cases edits with
  | nil => rfl
  | cons edit rest =>
      obtain ⟨hStart, hOrder, -⟩ := hFit
      have hTake : (front ++ text).take (edit.start - offset) =
          front ++ text.take (edit.start - (offset + front.length)) := by
        rw [List.take_append, List.take_of_length_le (by omega), Nat.sub_sub]
      have hDrop : (front ++ text).drop (edit.stop - offset) =
          text.drop (edit.stop - (offset + front.length)) := by
        rw [List.drop_append, List.drop_of_length_le (by omega), List.nil_append, Nat.sub_sub]
      simp only [splicedFrom, hTake, hDrop, List.append_assoc]

/-- The text of tokens in which opening tags are written anew. -/
def rewriteTags (write : OpenTag → List Char) (tokens : List Token) : List Char :=
  tokens.flatMap fun token =>
    match token.content with
    | .openTag tag => write tag
    | _ => token.source

theorem rewriteTags_cons_openTag (write : OpenTag → List Char) {token : Token} {tag : OpenTag}
    (hContent : token.content = .openTag tag) (rest : List Token) :
    rewriteTags write (token :: rest) = write tag ++ rewriteTags write rest := by
  simp [rewriteTags, hContent]

theorem rewriteTags_cons_other (write : OpenTag → List Char) {token : Token}
    (hOther : ∀ tag, token.content ≠ .openTag tag) (rest : List Token) :
    rewriteTags write (token :: rest) = token.source ++ rewriteTags write rest := by
  rw [rewriteTags, List.flatMap_cons]
  split
  · rename_i tag hContent
    exact absurd hContent (hOther tag)
  · rfl

/-- The edit that writes a tag anew, if it is to be. -/
def Opening.edit? (change : OpenTag → Option (List Char)) (opening : Opening) : Option Edit :=
  (change opening.tag).map fun replacement =>
    ⟨opening.placed.start, opening.placed.stop, replacement⟩

section
variable {tokens : List Token}
  (hSource : ∀ token ∈ tokens, ∀ tag, token.content = .openTag tag → token.source = tag.source)
include hSource

/-- Edits of tags stand one behind the other as the tags do, within the text behind that before the
tokens. -/
theorem fitBetween_edits (change : OpenTag → Option (List Char)) (before : List Char) {stop : Nat}
    (hStop : before.length + (tokens.flatMap Token.source).length ≤ stop) :
    FitBetween before.length stop ((openings before tokens).filterMap (Opening.edit? change)) := by
  induction tokens generalizing before with
  | nil => simpa [FitBetween] using hStop
  | cons token rest ih =>
      simp only [List.flatMap_cons, List.length_append] at hStop
      have hRest := ih (fun other hMem => hSource other (List.mem_cons_of_mem _ hMem))
        (before ++ token.source) (by simp only [List.length_append]; omega)
      rw [List.length_append] at hRest
      have hLater : FitBetween before.length stop
          ((openings (before ++ token.source) rest).filterMap (Opening.edit? change)) :=
        hRest.of_le (Nat.le_add_right _ _)
      rcases token.content.openTag_or_other with ⟨tag, hContent⟩ | hOther
      · have hTag := hSource token (List.mem_cons_self ..) tag hContent
        rw [openings_cons_openTag before rest hContent]
        cases hChange : change tag with
        | none => simpa [Opening.edit?, hChange] using hLater
        | some replacement =>
            rw [hTag] at hRest
            simpa [Opening.edit?, hChange, FitBetween, Opening.placed, PlacedTag.stop, ← hTag]
              using hRest
      · rw [openings_cons_other before rest hOther]
        exact hLater

/-- Carrying out the edits of tags writes these tags anew and copies all other tokens. -/
theorem splicedFrom_edits (change : OpenTag → Option (List Char)) (before dropped : List Char) :
    splicedFrom before.length (tokens.flatMap Token.source ++ dropped)
        ((openings before tokens).filterMap (Opening.edit? change)) =
      rewriteTags (fun tag => (change tag).getD tag.source) tokens ++ dropped := by
  induction tokens generalizing before with
  | nil => rfl
  | cons token rest ih =>
      have hTail := ih (fun other hMem => hSource other (List.mem_cons_of_mem _ hMem))
        (before ++ token.source)
      have hFit := fitBetween_edits
        (fun other hMem => hSource other (List.mem_cons_of_mem _ hMem)) change
        (before ++ token.source) (Nat.le_refl _)
      rw [List.length_append] at hTail hFit
      have hCopy : splicedFrom before.length ((token :: rest).flatMap Token.source ++ dropped)
          ((openings (before ++ token.source) rest).filterMap (Opening.edit? change)) =
          token.source ++ (rewriteTags (fun tag => (change tag).getD tag.source) rest ++
            dropped) := by
        rw [List.flatMap_cons, List.append_assoc, splicedFrom_append hFit, hTail]
      rcases token.content.openTag_or_other with ⟨tag, hContent⟩ | hOther
      · have hTag := hSource token (List.mem_cons_self ..) tag hContent
        rw [openings_cons_openTag before rest hContent]
        cases hChange : change tag with
        | none =>
            simpa [Opening.edit?, hChange, rewriteTags, hContent, ← hTag] using hCopy
        | some replacement =>
            simp only [List.filterMap_cons, Opening.edit?, hChange, Option.map_some, splicedFrom,
              Opening.placed, PlacedTag.stop, ← hTag, Nat.sub_self, List.take_zero,
              List.nil_append, List.flatMap_cons, List.append_assoc, Nat.add_sub_cancel_left,
              List.drop_left]
            rw [hTail]
            simp [rewriteTags, hContent, hChange]
      · rw [openings_cons_other before rest hOther, hCopy, rewriteTags_cons_other _ hOther,
          List.append_assoc]

/-- Edits of opening tags write these tags anew and leave all else as it was. -/
theorem splice_edits (change : OpenTag → Option (List Char)) (dropped : List Char) :
    splice (tokens.flatMap Token.source ++ dropped)
        ((openings [] tokens).filterMap (Opening.edit? change)) =
      .ok (rewriteTags (fun tag => (change tag).getD tag.source) tokens ++ dropped) := by
  have hFit : FitBetween 0 (tokens.flatMap Token.source ++ dropped).length
      ((openings [] tokens).filterMap (Opening.edit? change)) :=
    fitBetween_edits hSource change [] (by simp)
  have hOrdered : ((openings [] tokens).filterMap (Opening.edit? change)).Pairwise
      fun one other => one.start < other.start := by
    refine List.Pairwise.filterMap _ ?_ (pairwise_placed_openings hSource [])
    intro one other hOrder edit hEdit next hNext
    obtain ⟨-, -, rfl⟩ := Option.map_eq_some_iff.1 hEdit
    obtain ⟨-, -, rfl⟩ := Option.map_eq_some_iff.1 hNext
    exact hOrder.1
  have hSort := mergeSort_eq_reverse Edit.start (List.Perm.refl _) hOrdered
  rw [splice_eq, lastFirst, hSort, spliceInOrder_reverse hFit (Nat.le_refl _)]
  have hSpliced := splicedFrom_edits hSource change [] dropped
  rw [List.length_nil] at hSpliced
  rw [hSpliced]

end

end AccessibleMarkup.Markup
