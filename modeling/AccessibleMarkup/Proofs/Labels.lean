import AccessibleMarkup.Labelling
import AccessibleMarkup.Proofs.TagAttributes

/-! The labels that rules add, as attributes of the tags that they are added to. A label is read as
one attribute wherever an attribute may begin, so a tag whose name labels follow carries all of
them. -/
namespace AccessibleMarkup

open AccessibleMarkup.Markup
open AccessibleMarkup.Text

namespace Rule

/-- The rules work on elements of different names. -/
theorem eq_of_tag_eq {rule other : Rule} (hRule : rule ∈ all) (hOther : other ∈ all)
    (hTag : rule.tag = other.tag) : rule = other := by
  have hAll : ∀ rule ∈ all, ∀ other ∈ all, rule.tag = other.tag → rule = other := by decide
  exact hAll rule hRule other hOther hTag

def labelBody (rule : Rule) : List Char :=
  rule.attributeName.toList ++ '=' :: '"' :: rule.value.toList ++ ['"']

theorem label_eq (rule : Rule) : rule.label = ' ' :: rule.labelBody := rfl

def labelAttribute (rule : Rule) (gap : List Char) : WrittenAttribute :=
  ⟨rule.attributeName.toList, some ⟨['='], .quoted '"' rule.value.toList⟩, gap⟩

@[simp] theorem body_labelAttribute (rule : Rule) (gap : List Char) :
    (rule.labelAttribute gap).body = rule.labelBody := by
  simp [labelAttribute, labelBody, WrittenAttribute.body, Assignment.source, WrittenValue.source]

@[simp] theorem gap_labelAttribute (rule : Rule) (gap : List Char) :
    (rule.labelAttribute gap).gap = gap := rfl

/-- The label of the rule is one attribute: its name may stand for an attribute, and no quote ends
its value before the last one. -/
structure WritesAttribute (rule : Rule) : Prop where
  name : IsAttributeName rule.attributeName.toList
  value : '"' ∉ rule.value.toList

namespace WritesAttribute

variable {rule : Rule} (hWrites : rule.WritesAttribute)
include hWrites

/-- A label ends by itself. -/
theorem ends_labelAttribute (gap following : List Char) :
    (rule.labelAttribute gap).Ends following :=
  @Assignment.Ends.quoted [] ['='] [] _ following '"' ⟨by simp, by simp, by simp, by simp⟩ rfl
    hWrites.value

/-- The reader takes a label where an attribute may begin. -/
theorem readAttribute?_labelBody {rest gap left : List Char} (hGap : splitGap rest = (gap, left)) :
    readAttribute? ' ' (rule.labelBody ++ rest) = some (rule.labelAttribute gap, left) := by
  have hJoin := splitGap_append rest
  rw [hGap] at hJoin
  refine readAttribute?_eq_some_iff.2 ⟨?_, rfl, hWrites.name,
    hWrites.ends_labelAttribute gap _, gapStops_of_splitGap hGap⟩
  rw [WrittenAttribute.source, body_labelAttribute, List.append_assoc]
  exact congrArg _ hJoin.symm

/-- The blank of a label separates it from what comes before, and no more of it does. -/
theorem splitGap_label (rest : List Char) :
    splitGap (rule.label ++ rest) = ([' '], rule.labelBody ++ rest) := by
  have hBegins : BeginsNoGap (rule.labelBody ++ rest) := by
    have hNameBegins := beginsNoGap_of_isAttributeName hWrites.name
      ('=' :: '"' :: rule.value.toList ++ ['"'] ++ rest)
    simpa [labelBody] using hNameBegins
  have hGap : GapStops [' '] (rule.labelBody ++ rest) :=
    gapStops_iff.2 ⟨by simp [isBlank], by simp, hBegins⟩
  exact hGap

end WritesAttribute

section
variable {rule : Rule} (hRule : rule ∈ all)
include hRule

theorem isAttributeName : IsAttributeName rule.attributeName.toList := by
  simp only [all, List.mem_cons, List.not_mem_nil, or_false] at hRule
  rcases hRule with rfl | rfl | rfl | rfl <;> exact ⟨rfl, List.all_eq_true.1 (by decide)⟩

/-- Behind a name without the blank, a label would be taken for a part of the name. -/
theorem continuesTagName_of_mem_labelBody : ∀ c ∈ rule.labelBody, continuesTagName c = true := by
  have hAll : ∀ rule ∈ all, rule.labelBody.all continuesTagName = true := by decide
  exact List.all_eq_true.1 (hAll rule hRule)

/-- A label holds no white space but the blank at its front. -/
theorem not_isBlank_of_mem_labelBody : ∀ c ∈ rule.labelBody, isBlank c = false := by
  have hAll : ∀ rule ∈ all, rule.labelBody.any isBlank = false := by decide
  exact fun c hMem => by simpa using List.any_eq_false.1 (hAll rule hRule) c hMem

theorem open_not_mem_label : '<' ∉ rule.label := by
  revert rule
  decide

theorem quote_not_mem_value : '"' ∉ rule.value.toList := by
  revert rule
  decide

/-- A label is read as the attribute and the value of its rule. -/
theorem read_labelAttribute (gap : List Char) :
    (rule.labelAttribute gap).read = ⟨rule.attributeName, rule.value⟩ := by
  have hAll : ∀ rule ∈ all, (rule.labelAttribute []).read = ⟨rule.attributeName, rule.value⟩ := by
    decide +kernel
  exact hAll rule hRule

/-- Every label has a value that is valid for its name. -/
theorem isValid_label : Aria.isValid rule.attributeName (some rule.value) = true := by
  revert rule
  decide

theorem writesAttribute : rule.WritesAttribute :=
  ⟨isAttributeName hRule, quote_not_mem_value hRule⟩

/-- What is read as the label at the front of a text is the label. -/
theorem eq_label_of_body {written : WrittenAttribute} {following rest : List Char}
    (hName : IsAttributeName written.name) (hEnds : written.Ends following)
    (hText : written.body ++ following = rule.labelBody ++ rest) :
    written.body = rule.labelBody ∧ following = rest ∧
      written.read = ⟨rule.attributeName, rule.value⟩ := by
  let label : Assignment := ⟨['='], .quoted '"' rule.value.toList⟩
  have hLabel : label.Ends rest := (writesAttribute hRule).ends_labelAttribute [] rest
  obtain ⟨name, assignment, gap⟩ := written
  obtain ⟨rfl, hBehind⟩ := hName.unique (isAttributeName hRule) hEnds.stops_name
    (hLabel.lead_stops rest) (by
      simpa [WrittenAttribute.body, labelBody, label, Assignment.source, WrittenValue.source]
        using hText)
  have hRead : readAssignment? (label.source ++ rest) = some (label, rest) :=
    readAssignment?_eq_some_iff.2 ⟨rfl, hLabel⟩
  rw [← hBehind] at hRead
  cases assignment with
  | none =>
      have hNone : readAssignment? following = none := hEnds.2
      simp [hNone] at hRead
  | some assignment =>
      have hSome : readAssignment? (assignment.source ++ following) =
          some (assignment, following) := readAssignment?_eq_some_iff.2 ⟨rfl, hEnds⟩
      obtain ⟨rfl, rfl⟩ := Prod.mk.inj (Option.some.inj (hSome.symm.trans hRead))
      exact ⟨body_labelAttribute rule gap, rfl, read_labelAttribute hRule gap⟩

end

def labels (rules : List Rule) : List Char :=
  rules.flatMap Rule.label

/-- Where labels follow the name of a tag, the tag carries each of them. -/
theorem carries_label {rules : List Rule} (hRules : ∀ rule ∈ rules, rule ∈ all) {rule : Rule}
    (hRule : rule ∈ all) (rest : List Char) :
    ∃ left, splitGap (labels rules ++ (rule.label ++ rest)) = ([' '], left) ∧
      ∃ written ∈ (readAttributes ' ' left).1, written.name = rule.attributeName.toList := by
  induction rules with
  | nil =>
      refine ⟨_, (writesAttribute hRule).splitGap_label rest,
        rule.labelAttribute (splitGap rest).1, ?_, rfl⟩
      rw [readAttributes_of_some ((writesAttribute hRule).readAttribute?_labelBody rfl)]
      exact List.mem_cons_self ..
  | cons first more ih =>
      obtain ⟨left, hGap, written, hMem, hName⟩ :=
        ih fun other hOther => hRules other (List.mem_cons_of_mem _ hOther)
      have hFirst := writesAttribute (hRules first (List.mem_cons_self ..))
      have hText : labels (first :: more) ++ (rule.label ++ rest) =
          first.label ++ (labels more ++ (rule.label ++ rest)) := by
        simp [labels]
      refine ⟨_, by rw [hText, hFirst.splitGap_label], written, ?_, hName⟩
      rw [readAttributes_of_some (hFirst.readAttribute?_labelBody hGap)]
      refine List.mem_cons_of_mem _ ?_
      have hLast : lastOr ' ' (first.labelAttribute [' ']).source = ' ' := by
        simp [lastOr, WrittenAttribute.source, labelAttribute]
      rwa [hLast]

end Rule

end AccessibleMarkup
