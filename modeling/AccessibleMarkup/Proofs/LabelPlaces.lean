import AccessibleMarkup.Proofs.LabelEdits

/-! Where labels go in. An edit takes a whole tag out and puts it back with the label, but all that
counts is the place behind the name: the text with labels tells the places where they were put in.
-/
namespace AccessibleMarkup

open AccessibleMarkup.Markup
open AccessibleMarkup.Text

namespace Markup

def putEdit (piece : List Char) (place : Nat) : Edit :=
  ⟨place, place, piece⟩

@[simp] theorem start_putEdit (piece : List Char) (place : Nat) :
    (putEdit piece place).start = place := rfl

@[simp] theorem stop_putEdit (piece : List Char) (place : Nat) :
    (putEdit piece place).stop = place := rfl

@[simp] theorem replacement_putEdit (piece : List Char) (place : Nat) :
    (putEdit piece place).replacement = piece := rfl

/-- Edits may be made narrower. -/
theorem FitBetween.narrow {α : Type} {wide narrow : α → Edit} {list : List α}
    (hWithin : ∀ item ∈ list, (wide item).start ≤ (narrow item).start ∧
      (narrow item).start ≤ (narrow item).stop ∧ (narrow item).stop ≤ (wide item).stop)
    {start stop : Nat} (hFit : FitBetween start stop (list.map wide)) :
    FitBetween start stop (list.map narrow) := by
  induction list generalizing start with
  | nil => exact hFit
  | cons item rest ih =>
      obtain ⟨hStart, hOrder, hStop⟩ := hWithin item (List.mem_cons_self ..)
      obtain ⟨hBefore, -, hRest⟩ := hFit
      have hTail := ih (fun other hMem => hWithin other (List.mem_cons_of_mem _ hMem)) hRest
      exact ⟨Nat.le_trans hBefore hStart, hOrder, hTail.of_le hStop⟩

/-- Every piece that is put in makes the text longer by its own length. -/
theorem length_splicedFrom_putEdit {piece text : List Char} {places : List Nat} {offset : Nat}
    (hFit : FitBetween offset (offset + text.length) (places.map (putEdit piece))) :
    (splicedFrom offset text (places.map (putEdit piece))).length =
      text.length + places.length * piece.length := by
  induction places generalizing offset text with
  | nil => simp [splicedFrom]
  | cons place rest ih =>
      obtain ⟨hStart, -, hRest⟩ := hFit
      simp only [start_putEdit, stop_putEdit] at hStart hRest
      have hStop := hRest.le
      have hTail := @ih (text.drop (place - offset)) place (by
        rw [List.length_drop]
        rwa [show place + (text.length - (place - offset)) = offset + text.length by omega])
      rw [List.map_cons, splicedFrom]
      simp only [stop_putEdit, start_putEdit, replacement_putEdit, List.length_append,
        List.length_take] at hTail ⊢
      rw [hTail, List.length_drop, List.length_cons, Nat.add_mul]
      omega

/-- A piece that begins with a character it does not hold again cannot be put in at one place or at
a later one alike, as long as it does not stand at the first place already. -/
theorem ne_of_put_before {c : Char} {piece text one other : List Char} {distance : Nat}
    (hPiece : c ∉ piece) (hDistance : 0 < distance) (hLength : distance ≤ text.length)
    (hLacks : ¬ c :: piece <+: text) :
    c :: piece ++ one ≠ text.take distance ++ (c :: piece ++ other) := by
  intro hSame
  rcases List.append_eq_append_iff.1 hSame with ⟨left, hTake, -⟩ | ⟨left, hPut, hRest⟩
  · exact hLacks ((List.prefix_append _ left).trans (hTake ▸ List.take_prefix distance text))
  · cases left with
    | nil =>
        rw [List.append_nil] at hPut
        exact hLacks (hPut ▸ List.take_prefix distance text)
    | cons d left =>
        have hHead : c = d := (List.cons.inj hRest).1
        obtain ⟨front, hFront⟩ : ∃ front, text.take distance = c :: front := by
          cases hTake : text.take distance with
          | nil =>
              have hNone := congrArg List.length hTake
              rw [List.length_take, List.length_nil] at hNone
              omega
          | cons e front =>
              rw [hTake] at hPut
              rw [(List.cons.inj hPut).1]
              exact ⟨front, rfl⟩
        rw [hFront] at hPut
        rw [(List.cons.inj hPut).2, ← hHead] at hPiece
        simp at hPiece

/-- What is put in at one place is not what is put in at a later one. -/
theorem ne_of_put_apart {c : Char} {piece text one other : List Char} {offset near far : Nat}
    (hPiece : c ∉ piece) (hNear : offset ≤ near) (hFar : near < far)
    (hEnd : far ≤ offset + text.length) (hLacks : ¬ c :: piece <+: text.drop (near - offset)) :
    text.take (near - offset) ++ (c :: piece ++ one) ≠
      text.take (far - offset) ++ (c :: piece ++ other) := by
  intro hSame
  have hTake : text.take (far - offset) =
      text.take (near - offset) ++ (text.drop (near - offset)).take (far - near) := by
    rw [show far - offset = (near - offset) + (far - near) by omega, List.take_add]
  rw [hTake, List.append_assoc] at hSame
  exact ne_of_put_before hPiece (by omega) (by rw [List.length_drop]; omega) hLacks
    (List.append_cancel_left hSame)

/-- As many pieces were put in as the text became longer. -/
theorem length_eq_of_splicedFrom {piece text : List Char} (hPiece : piece ≠ [])
    {places others : List Nat} {offset : Nat}
    (hFit : FitBetween offset (offset + text.length) (places.map (putEdit piece)))
    (hOther : FitBetween offset (offset + text.length) (others.map (putEdit piece)))
    (hSame : splicedFrom offset text (places.map (putEdit piece)) =
      splicedFrom offset text (others.map (putEdit piece))) : places.length = others.length := by
  have hLength := congrArg List.length hSame
  rw [length_splicedFrom_putEdit hFit, length_splicedFrom_putEdit hOther,
    Nat.add_left_cancel_iff] at hLength
  exact Nat.eq_of_mul_eq_mul_right (List.length_pos_iff.2 hPiece) hLength

/-- Places behind a first one are places in the text behind it. -/
theorem not_prefix_drop {piece text : List Char} {places : List Nat} {offset place stop : Nat}
    (hPlace : offset ≤ place) (hFit : FitBetween place stop (places.map (putEdit piece)))
    (hLacks : ∀ later ∈ places, ¬ piece <+: text.drop (later - offset)) :
    ∀ later ∈ places, ¬ piece <+: (text.drop (place - offset)).drop (later - place) := by
  intro later hMem
  have hBehind : place ≤ later := (hFit.within (List.mem_map_of_mem hMem)).1
  rw [List.drop_drop, show place - offset + (later - place) = later - offset by omega]
  exact hLacks later hMem

/-- A text with pieces put in tells the places where they were put in. -/
theorem places_unique {c : Char} {piece text : List Char} (hPiece : c ∉ piece)
    {places others : List Nat} {offset : Nat}
    (hFit : FitBetween offset (offset + text.length) (places.map (putEdit (c :: piece))))
    (hOther : FitBetween offset (offset + text.length) (others.map (putEdit (c :: piece))))
    (hLacks : ∀ place ∈ places, ¬ c :: piece <+: text.drop (place - offset))
    (hOtherLacks : ∀ place ∈ others, ¬ c :: piece <+: text.drop (place - offset))
    (hSame : splicedFrom offset text (places.map (putEdit (c :: piece))) =
      splicedFrom offset text (others.map (putEdit (c :: piece)))) : places = others := by
  have hLength := length_eq_of_splicedFrom (List.cons_ne_nil c piece) hFit hOther hSame
  induction places generalizing offset text others with
  | nil => exact (List.length_eq_zero_iff.1 hLength.symm).symm
  | cons place rest ih =>
      cases others with
      | nil => simp at hLength
      | cons other more =>
          obtain ⟨hStart, -, hRest⟩ := hFit
          obtain ⟨hOtherStart, -, hMore⟩ := hOther
          simp only [start_putEdit, stop_putEdit] at hStart hRest hOtherStart hMore
          have hStop := hRest.le
          have hOtherStop := hMore.le
          simp only [List.map_cons, splicedFrom, start_putEdit, stop_putEdit, replacement_putEdit,
            List.append_assoc] at hSame
          rcases Nat.lt_trichotomy place other with hLess | rfl | hGreater
          · exact absurd hSame (ne_of_put_apart hPiece hStart hLess hOtherStop
              (hLacks place (List.mem_cons_self ..)))
          · have hTail := List.append_cancel_left (List.append_cancel_left hSame)
            have hBounds : place + (text.drop (place - offset)).length = offset + text.length := by
              rw [List.length_drop]
              omega
            have hRestLacks := not_prefix_drop hStart hRest
              fun later hMem => hLacks later (List.mem_cons_of_mem _ hMem)
            have hMoreLacks := not_prefix_drop hStart hMore
              fun later hMem => hOtherLacks later (List.mem_cons_of_mem _ hMem)
            rw [ih (by rwa [hBounds]) (by rwa [hBounds]) hRestLacks hMoreLacks hTail
              (Nat.succ.inj hLength)]
          · exact absurd hSame.symm (ne_of_put_apart hPiece hOtherStart hGreater hStop
              (hOtherLacks other (List.mem_cons_self ..)))

end Markup

namespace Rule

/-- The place in the text behind the name of a tag. -/
def labelPlace (placed : PlacedTag) : Nat :=
  placed.start + (tagStart placed.source).length

theorem blank_not_mem_labelBody {rule : Rule} (hRule : rule ∈ all) : ' ' ∉ rule.labelBody :=
  fun hMem => absurd (not_isBlank_of_mem_labelBody hRule ' ' hMem) (by decide)

/-- The edit of a tag puts the label in behind its name, where no label stands. -/
theorem place_of_putsLabel {rule : Rule} {text : List Char} {placed : PlacedTag}
    (hPuts : PutsLabel rule text (rule.labelledEdit placed)) :
    ∃ front name source behind, text = front ++ (name ++ (source ++ behind)) ∧
      placed.start = front.length ∧ labelPlace placed = (front ++ name).length ∧
      rule.labelledEdit placed =
        ⟨front.length, front.length + (name ++ source).length, name ++ (rule.label ++ source)⟩ ∧
      tagStart placed.source = name ∧ Stops continuesTagName (source ++ behind) ∧
      ¬ rule.label <+: source ++ behind := by
  obtain ⟨front, name, source, behind, hText, -, hContinues, hStops, hLacks, hEdit⟩ := hPuts
  have hStart : placed.start = front.length := congrArg Edit.start hEdit
  have hReplacement : tagStart placed.source ++ rule.label ++ _ = name ++ (rule.label ++ source) :=
    congrArg Edit.replacement hEdit
  have hName : ' ' ∉ name := fun hMem => absurd (hContinues ' ' hMem) (by decide)
  have hTagStart : ' ' ∉ tagStart placed.source := by
    unfold tagStart
    split
    · split
      · rename_i hRead
        have hTagName := (readTagName?_eq_some_iff.1 hRead).2.1
        intro hMem
        rcases List.mem_cons.1 hMem with hBlank | hMem
        · simp at hBlank
        · exact absurd (hTagName.continues ' ' hMem) (by decide)
      · simp
    · simp
  have hSame : tagStart placed.source = name := by
    rw [List.append_assoc, label_eq, List.cons_append] at hReplacement
    obtain ⟨left, hLeft, hRest⟩ := append_cons_eq_append hName hReplacement
    cases left with
    | nil => simpa using hLeft
    | cons c left =>
        rw [hLeft, ← (List.cons.inj hRest).1] at hTagStart
        simp at hTagStart
  refine ⟨front, name, source, behind, hText, hStart, ?_, hEdit, hSame, hStops, ?_⟩
  · rw [labelPlace, hStart, hSame, List.length_append]
  · rintro ⟨rest, hRest⟩
    exact hLacks [] (by simp) rest (by simp [labels, hRest])

section
variable {rule : Rule} {text : List Char} {tags : List PlacedTag}
  (hPuts : ∀ placed ∈ tags, PutsLabel rule text (rule.labelledEdit placed))
include hPuts

/-- Labels go in behind the names of tags, so where the tags stand one behind the other, so do the
places. -/
theorem fitBetween_putEdit {start stop : Nat}
    (hFit : FitBetween start stop (tags.map rule.labelledEdit)) :
    FitBetween start stop (tags.map fun placed => putEdit rule.label (labelPlace placed)) := by
  refine hFit.narrow fun placed hMem => ?_
  obtain ⟨front, name, source, behind, -, -, hPlace, hEdit, -⟩ :=
    place_of_putsLabel (hPuts placed hMem)
  rw [hEdit]
  simp only [start_putEdit, stop_putEdit, hPlace, List.length_append]
  omega

/-- All that the edits of tags do is to put labels in at their places. -/
theorem splicedFrom_labelledEdit {offset : Nat}
    (hFit : FitBetween offset text.length (tags.map rule.labelledEdit)) :
    splicedFrom offset (text.drop offset) (tags.map rule.labelledEdit) =
      splicedFrom offset (text.drop offset)
        (tags.map fun placed => putEdit rule.label (labelPlace placed)) := by
  induction tags generalizing offset with
  | nil => rfl
  | cons placed rest ih =>
      obtain ⟨front, name, source, behind, hText, hStart, hPlace, hEdit, -⟩ :=
        place_of_putsLabel (hPuts placed (List.mem_cons_self ..))
      obtain ⟨hBefore, -, hRest⟩ := hFit
      have hPutsRest := fun other hMem => hPuts other (List.mem_cons_of_mem _ hMem)
      have hTail := ih hPutsRest hRest
      have hFitRest := fitBetween_putEdit hPutsRest hRest
      rw [hEdit] at hBefore hTail hFitRest
      simp only at hBefore hTail hFitRest
      have hFront : text.drop offset = front.drop offset ++ (name ++ (source ++ behind)) := by
        rw [hText, List.drop_append_of_le_length hBefore]
      have hBehind : text.drop (front.length + (name ++ source).length) = behind := by
        have hSplit : text = (front ++ (name ++ source)) ++ behind := by simp [hText]
        rw [hSplit, ← List.length_append, List.drop_left]
      have hLength : (front.drop offset).length = front.length - offset := List.length_drop ..
      have hWide : (front.drop offset ++ (name ++ (source ++ behind))).drop
          (front.length + (name ++ source).length - offset) = behind := by
        rw [show front.length + (name ++ source).length - offset =
          (front.drop offset ++ (name ++ source)).length by
            simp only [List.length_append, hLength]; omega]
        rw [show front.drop offset ++ (name ++ (source ++ behind)) =
          (front.drop offset ++ (name ++ source)) ++ behind by simp, List.drop_left]
      have hNarrow : front.drop offset ++ (name ++ (source ++ behind)) =
          (front.drop offset ++ name) ++ (source ++ behind) := by simp
      have hPlaceLength : labelPlace placed - offset = (front.drop offset ++ name).length := by
        rw [hPlace]
        simp only [List.length_append, hLength]
        omega
      have hStop : front.length + (name ++ source).length = labelPlace placed + source.length := by
        rw [hPlace]
        simp only [List.length_append]
        omega
      rw [hBehind] at hTail
      rw [hStop] at hTail hFitRest
      rw [List.map_cons, List.map_cons, splicedFrom, splicedFrom, hFront, hEdit]
      simp only [start_putEdit, stop_putEdit, replacement_putEdit]
      rw [hWide, ← hLength, List.take_left, hStop, hTail, hNarrow, hPlaceLength, List.take_left,
        List.drop_left, splicedFrom_append hFitRest]
      simp

end

/-- Tags that are labelled at the same places, and only those, lead to the same text. -/
theorem splicedFrom_eq_iff {rule : Rule} (hRule : rule ∈ all) {text : List Char}
    {tags others : List PlacedTag}
    (hFit : FitBetween 0 text.length (tags.map rule.labelledEdit))
    (hOther : FitBetween 0 text.length (others.map rule.labelledEdit))
    (hPuts : ∀ placed ∈ tags, PutsLabel rule text (rule.labelledEdit placed))
    (hOtherPuts : ∀ placed ∈ others, PutsLabel rule text (rule.labelledEdit placed)) :
    splicedFrom 0 text (tags.map rule.labelledEdit) =
        splicedFrom 0 text (others.map rule.labelledEdit) ↔
      tags.map labelPlace = others.map labelPlace := by
  have hLacks (list : List PlacedTag)
      (hPuts : ∀ placed ∈ list, PutsLabel rule text (rule.labelledEdit placed)) :
      ∀ place ∈ list.map labelPlace, ¬ ' ' :: rule.labelBody <+: text.drop (place - 0) := by
    intro place hMem
    obtain ⟨placed, hPlaced, rfl⟩ := List.mem_map.1 hMem
    obtain ⟨front, name, source, behind, hText, -, hPlace, -, -, -, hNot⟩ :=
      place_of_putsLabel (hPuts placed hPlaced)
    have hSplit : text = (front ++ name) ++ (source ++ behind) := by simp [hText]
    rw [Nat.sub_zero, hPlace, hSplit, List.drop_left]
    exact hNot
  have hText := @splicedFrom_labelledEdit _ _ _ hPuts 0 hFit
  have hOtherText := @splicedFrom_labelledEdit _ _ _ hOtherPuts 0 hOther
  have hPlaces (list : List PlacedTag) :
      (list.map fun placed => putEdit rule.label (labelPlace placed)) =
        (list.map labelPlace).map (putEdit (' ' :: rule.labelBody)) := by
    rw [List.map_map]
    rfl
  have hFitPut := fitBetween_putEdit hPuts hFit
  have hOtherPut := fitBetween_putEdit hOtherPuts hOther
  rw [hPlaces] at hText hOtherText hFitPut hOtherPut
  rw [List.drop_zero] at hText hOtherText
  rw [hText, hOtherText]
  constructor
  · intro hSame
    exact places_unique (blank_not_mem_labelBody hRule) (by simpa using hFitPut)
      (by simpa using hOtherPut) (hLacks tags hPuts) (hLacks others hOtherPuts) hSame
  · intro hSame
    rw [hSame]

end Rule

end AccessibleMarkup
