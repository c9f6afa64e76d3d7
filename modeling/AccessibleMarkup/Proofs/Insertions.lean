import AccessibleMarkup.Proofs.Labels
import AccessibleMarkup.Proofs.Splicing

/-! Texts that labels were put into. A label goes in where the name of a tag may end, and only where
the tag does not carry it yet. Putting in labels twice is putting in labels. -/
namespace AccessibleMarkup

open AccessibleMarkup.Markup
open AccessibleMarkup.Text

/-- No label of that rule is among the labels at the front of the text. -/
def Unlabelled (rule : Rule) (text : List Char) : Prop :=
  ∀ rules, (∀ other ∈ rules, other ∈ Rule.all) →
    ∀ rest, text ≠ Rule.labels rules ++ (rule.label ++ rest)

/-- The second text is the first one with labels put in. The flag says that a character which may
belong to the name of a tag comes before the first text. -/
inductive Labelled : Bool → List Char → List Char → Prop where
  | nil (inName : Bool) : Labelled inName [] []
  | copy {inName : Bool} {c : Char} {text labelled : List Char}
      (tail : Labelled (continuesTagName c) text labelled) :
      Labelled inName (c :: text) (c :: labelled)
  | label {rule : Rule} {text labelled : List Char} (mem : rule ∈ Rule.all)
      (ends : Stops continuesTagName text) (lacks : Unlabelled rule text)
      (tail : Labelled true text labelled) : Labelled true text (rule.label ++ labelled)

/-- The flag behind a piece of text. -/
def inNameAfter (inName : Bool) (front : List Char) : Bool :=
  front.foldl (fun _ c => continuesTagName c) inName

@[simp] theorem inNameAfter_nil (inName : Bool) : inNameAfter inName [] = inName := rfl

@[simp] theorem inNameAfter_cons (inName : Bool) (c : Char) (front : List Char) :
    inNameAfter inName (c :: front) = inNameAfter (continuesTagName c) front := rfl

/-- The flag is set behind characters of a name. -/
theorem inNameAfter_eq_true {inName : Bool} {front : List Char} (hNonempty : front ≠ [])
    (hFront : ∀ c ∈ front, continuesTagName c = true) : inNameAfter inName front = true := by
  induction front generalizing inName with
  | nil => exact absurd rfl hNonempty
  | cons c front ih =>
      rw [inNameAfter_cons]
      cases front with
      | nil => exact hFront c (List.mem_cons_self ..)
      | cons d front => exact ih (by simp) fun e hMem => hFront e (List.mem_cons_of_mem _ hMem)

namespace Labelled

theorem refl (inName : Bool) (text : List Char) : Labelled inName text text := by
  induction text generalizing inName with
  | nil => exact .nil inName
  | cons c text ih => exact .copy (ih _)

/-- Labels make no text shorter. -/
theorem length_le {inName : Bool} {text labelled : List Char}
    (hLabelled : Labelled inName text labelled) : text.length ≤ labelled.length := by
  induction hLabelled with
  | nil => exact Nat.le_refl _
  | copy tail ih => simpa using ih
  | label mem ends lacks tail ih =>
      rw [List.length_append]
      omega

/-- A label makes the text longer. -/
theorem eq_of_length_le {inName : Bool} {text labelled : List Char}
    (hLabelled : Labelled inName text labelled) (hLength : labelled.length ≤ text.length) :
    labelled = text := by
  induction hLabelled with
  | nil => rfl
  | copy tail ih => rw [ih (by simpa using hLength)]
  | label mem ends lacks tail =>
      have hTail := tail.length_le
      simp only [Rule.label_eq, List.length_append, List.length_cons] at hLength
      omega

/-- A piece of text is copied. -/
theorem append {inName : Bool} {text labelled : List Char} (front : List Char)
    (hTail : Labelled (inNameAfter inName front) text labelled) :
    Labelled inName (front ++ text) (front ++ labelled) := by
  induction front generalizing inName with
  | nil => exact hTail
  | cons c front ih => exact .copy (ih hTail)

/-- No label goes in before a character that goes on with a name. -/
theorem of_append {inName : Bool} {front text labelled : List Char}
    (hFront : ∀ c ∈ front, continuesTagName c = true)
    (hLabelled : Labelled inName (front ++ text) labelled) :
    ∃ rest, labelled = front ++ rest ∧ Labelled (inNameAfter inName front) text rest := by
  induction front generalizing inName labelled with
  | nil => exact ⟨labelled, rfl, hLabelled⟩
  | cons c front ih =>
      have hC := hFront c (List.mem_cons_self ..)
      cases hLabelled with
      | copy tail =>
          obtain ⟨rest, rfl, hRest⟩ :=
            ih (fun d hMem => hFront d (List.mem_cons_of_mem _ hMem)) tail
          exact ⟨rest, rfl, hRest⟩
      | label mem ends => simp [hC] at ends

/-- A label begins with a blank, so what has none was copied. -/
theorem of_append_right {inName : Bool} {front text labelled : List Char} (hFront : ' ' ∉ front)
    (hLabelled : Labelled inName text (front ++ labelled)) :
    ∃ rest, text = front ++ rest ∧ Labelled (inNameAfter inName front) rest labelled := by
  induction front generalizing inName text with
  | nil => exact ⟨text, rfl, hLabelled⟩
  | cons c front ih =>
      generalize hWhole : c :: front ++ labelled = whole at hLabelled
      cases hLabelled with
      | nil => cases hWhole
      | copy tail =>
          cases hWhole
          obtain ⟨rest, rfl, hRest⟩ := ih (fun hMem => hFront (List.mem_cons_of_mem _ hMem)) tail
          exact ⟨rest, rfl, hRest⟩
      | @label rule =>
          rw [Rule.label_eq] at hWhole
          have hC : c = ' ' := (List.cons.inj hWhole).1
          simp [hC] at hFront

/-- Behind the blank of a label all of the label is copied. -/
theorem of_labelBody {rule : Rule} (hRule : rule ∈ Rule.all) {inName : Bool}
    {text labelled : List Char} (hLabelled : Labelled inName (rule.labelBody ++ text) labelled) :
    ∃ rest, labelled = rule.labelBody ++ rest ∧ Labelled true text rest := by
  have hBody := Rule.continuesTagName_of_mem_labelBody hRule
  obtain ⟨rest, hRest, hTail⟩ := hLabelled.of_append hBody
  rw [inNameAfter_eq_true (by simp [Rule.labelBody]) hBody] at hTail
  exact ⟨rest, hRest, hTail⟩

/-- Labels at the front of a text are among those at the front of the text that labels were put
into. -/
theorem of_labels {rules : List Rule} (hRules : ∀ other ∈ rules, other ∈ Rule.all) {rule : Rule}
    (hRule : rule ∈ Rule.all) {inName : Bool} {rest labelled : List Char}
    (hLabelled : Labelled inName (Rule.labels rules ++ (rule.label ++ rest)) labelled) :
    ¬ Unlabelled rule labelled := by
  induction hLength : labelled.length using Nat.strongRecOn
    generalizing rules inName labelled with
  | ind length ih =>
      generalize hText : Rule.labels rules ++ (rule.label ++ rest) = text at hLabelled
      intro hLacks
      cases hLabelled with
      | nil => simp [Rule.label_eq] at hText
      | @label added _ later mem ends lacks tail =>
          have hShorter : later.length < length := by
            simp only [← hLength, Rule.label_eq, List.length_append, List.length_cons]
            omega
          subst hText
          refine ih _ hShorter hRules tail rfl fun others hOthers left hLeft => ?_
          refine hLacks (added :: others) ?_ left (by simp [Rule.labels, hLeft])
          intro other hMem
          rcases List.mem_cons.1 hMem with rfl | hMem
          · exact mem
          · exact hOthers other hMem
      | @copy _ c text later tail =>
          cases rules with
          | nil =>
              rw [Rule.label_eq] at hText
              cases hText
              obtain ⟨left, rfl, -⟩ := tail.of_labelBody hRule
              exact hLacks [] (by simp) left (by simp [Rule.labels, Rule.label_eq])
          | cons first more =>
              have hFirst := hRules first (List.mem_cons_self ..)
              have hMore := fun other hMem => hRules other (List.mem_cons_of_mem _ hMem)
              simp only [Rule.labels, List.flatMap_cons, Rule.label_eq, List.cons_append,
                List.append_assoc, List.cons.injEq] at hText
              obtain ⟨rfl, rfl⟩ := hText
              obtain ⟨left, rfl, hTail⟩ := tail.of_labelBody hFirst
              have hShorter : left.length < length := by
                simp only [← hLength, List.length_append, List.length_cons]
                omega
              refine ih _ hShorter hMore hTail rfl fun others hOthers behind hBehind => ?_
              refine hLacks (first :: others) ?_ behind
                (by simp [Rule.labels, Rule.label_eq, hBehind])
              intro other hMem
              rcases List.mem_cons.1 hMem with rfl | hMem
              · exact hFirst
              · exact hOthers other hMem

/-- Where a name does not go on into the text with labels, it does not go on into the text without
them. -/
theorem stops {inName : Bool} {text labelled : List Char}
    (hLabelled : Labelled inName text labelled) (hStops : Stops continuesTagName labelled) :
    Stops continuesTagName text := by
  cases hLabelled with
  | nil => trivial
  | copy tail => exact hStops
  | label mem ends => exact ends

/-- Putting in labels twice is putting in labels. -/
theorem trans {inName : Bool} {text middle labelled : List Char}
    (hFirst : Labelled inName text middle) (hSecond : Labelled inName middle labelled) :
    Labelled inName text labelled := by
  induction hLength : labelled.length using Nat.strongRecOn
    generalizing inName text middle labelled with
  | ind length ih =>
      cases hSecond with
      | nil => exact hFirst
      | @label rule _ later mem ends lacks tail =>
          have hShorter : later.length < length := by
            simp only [← hLength, Rule.label_eq, List.length_append, List.length_cons]
            omega
          refine .label mem (hFirst.stops ends) ?_ (ih _ hShorter hFirst tail rfl)
          intro others hOthers rest hText
          rw [hText] at hFirst
          exact hFirst.of_labels hOthers mem lacks
      | @copy _ c middle later tail =>
          generalize hMiddle : c :: middle = whole at hFirst
          cases hFirst with
          | nil => cases hMiddle
          | copy front =>
              cases hMiddle
              have hShorter : later.length < length := by
                simp only [← hLength, List.length_cons]
                omega
              exact .copy (ih _ hShorter front tail rfl)
          | @label rule _ rest mem ends lacks front =>
              rw [Rule.label_eq] at hMiddle
              cases hMiddle
              obtain ⟨left, rfl, hTail⟩ := tail.of_labelBody mem
              have hShorter : left.length < length := by
                simp only [← hLength, List.length_append, List.length_cons]
                omega
              exact .label mem ends lacks (ih _ hShorter front hTail rfl)

end Labelled

end AccessibleMarkup
