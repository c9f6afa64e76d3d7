import Mathlib.Data.List.Forall2
import AccessibleMarkup.Proofs.Gate
import AccessibleMarkup.Proofs.LineEndsInValues
import AccessibleMarkup.Proofs.Retagging

/-! What the passes of the library do to a text with unified line ends. The text can be read if the
other one can; its tags have attributes of the same names, and the same of them are invalid, so the
same tags get the same labels and lose the same attributes. -/
namespace AccessibleMarkup

open AccessibleMarkup.Markup
open AccessibleMarkup.Text

namespace Markup

/-- Attributes of one name whose values are allowed under the same names. -/
def Attribute.Alike (known other : Attribute) : Prop :=
  known.name = other.name ∧
    ∀ name, Aria.isValid name (some known.value) = Aria.isValid name (some other.value)

theorem WrittenAttribute.value?_unify (written : WrittenAttribute) :
    written.unify.value? = written.value?.map unifyLineEnds := by
  obtain ⟨name, - | ⟨lead, - | ⟨mark, text⟩⟩, gap⟩ := written <;> rfl

/-- An attribute with unified line ends is allowed where the attribute is. -/
theorem WrittenAttribute.alike_read (written : WrittenAttribute) :
    Attribute.Alike written.unify.read written.read := by
  refine ⟨rfl, fun name => ?_⟩
  simp only [WrittenAttribute.read, value?_unify]
  cases written.value? with
  | none => rfl
  | some text => exact isValid_decodeValue_unifyLineEnds name text

section
variable {known other : List Attribute} (hAlike : List.Forall₂ Attribute.Alike known other)
include hAlike

theorem any_name_of_alike (name : String) :
    (known.any fun found => found.name = name) = other.any fun found => found.name = name := by
  induction hAlike with
  | nil => rfl
  | cons hFirst _ ih => rw [List.any_cons, List.any_cons, hFirst.1, ih]

/-- Attributes that are alike go to the same places, since their names are the same. -/
theorem alike_addAttribute {added changed : Attribute} (hAdded : Attribute.Alike added changed) :
    List.Forall₂ Attribute.Alike (addAttribute known added) (addAttribute other changed) := by
  unfold addAttribute
  rw [any_name_of_alike hAlike, hAdded.1]
  split
  · refine List.rel_map (fun found kept hFound => ?_) hAlike
    rw [hFound.1]
    split
    · exact hAdded
    · exact hFound
  · exact List.rel_append hAlike (.cons hAdded .nil)

/-- Lists of attributes that are alike have the same invalid names among them. -/
theorem map_name_filter_invalid_of_alike :
    (known.filter fun found =>
        Aria.isAriaName found.name &&
          !Aria.isValid found.name (some found.value)).map (·.name) =
      (other.filter fun found =>
        Aria.isAriaName found.name &&
          !Aria.isValid found.name (some found.value)).map (·.name) := by
  induction hAlike with
  | nil => rfl
  | @cons first second known other hFirst _ ih =>
      obtain ⟨hName, hValid⟩ := hFirst
      rw [List.filter_cons, List.filter_cons, hName, hValid]
      split
      · rw [List.map_cons, List.map_cons, ih, hName]
      · exact ih

end

/-- The attributes of a tag with unified line ends. -/
theorem OpenTag.alike_readAttributes (tag : OpenTag) :
    List.Forall₂ Attribute.Alike tag.unify.readAttributes tag.readAttributes := by
  have hWritten : List.Forall₂ Attribute.Alike (tag.unify.attributes.map WrittenAttribute.read)
      (tag.attributes.map WrittenAttribute.read) := by
    rw [OpenTag.unify, List.map_map, List.forall₂_map_left_iff, List.forall₂_map_right_iff,
      List.forall₂_same]
    exact fun written _ => written.alike_read
  exact List.rel_foldl (P := List.Forall₂ Attribute.Alike) (R := Attribute.Alike)
    (fun _ _ hKnown _ _ hAdded => alike_addAttribute hKnown hAdded) .nil hWritten

/-- No token gets a fault. -/
theorem Token.fault?_unify {token : Token} (hSound : token.fault? = none) :
    token.unify.fault? = none := by
  obtain ⟨content, source⟩ := token
  cases content with
  | openTag tag =>
      simp only [Token.fault?, List.findSome?_eq_none_iff, Option.map_eq_none_iff] at hSound
      simp only [Token.unify, Content.unify, Token.fault?, OpenTag.unify,
        List.findSome?_eq_none_iff, Option.map_eq_none_iff, List.forall_mem_map,
        WrittenAttribute.value?_unify]
      intro written hMem
      have hValue := hSound written hMem
      cases hSome : written.value? with
      | none => rfl
      | some value =>
          rw [hSome] at hValue
          exact overlongReference?_unifyLineEnds hValue
  | _ => exact hSound

/-- A text with unified line ends can be read, as the tokens of the text with unified line ends. -/
theorem Document.exists_read_unifyLineEnds {text : List Char} {document : Document}
    (hRead : Document.read text = .ok document) :
    (∃ again, Document.read (unifyLineEnds text) = .ok again) ∧
      scan (unifyLineEnds text) =
        ⟨(scan text).tokens.map Token.unify, unifyLineEnds (scan text).dropped, none⟩ := by
  obtain ⟨hScans, -⟩ := scans_of_read hRead
  have hScan : scan (unifyLineEnds text) =
      ⟨(scan text).tokens.map Token.unify, unifyLineEnds (scan text).dropped, none⟩ :=
    (hScans.unify (by simp)).scanOnto_eq
  refine ⟨⟨_, read_eq_ok_iff.2 ⟨?_, ?_, rfl⟩⟩, hScan⟩
  · rw [hScan, List.forall_mem_map]
    exact fun token hMem => Token.fault?_unify ((read_eq_ok_iff.1 hRead).1 token hMem)
  · rw [hScan]

end Markup

/-- The same attributes are invalid. -/
theorem Aria.invalidNames_unify (tag : OpenTag) : invalidNames tag.unify = invalidNames tag :=
  map_name_filter_invalid_of_alike tag.alike_readAttributes

/-- The cleanup cuts the same attributes out of a tag with unified line ends. -/
theorem Aria.cuts_unify (tag : OpenTag) : cuts tag.unify = cuts tag := by
  funext name
  rw [cuts, cuts, invalidNames_unify]

theorem Aria.tagsValid_map_unify {tokens : List Token} (hValid : TagsValid tokens) :
    TagsValid (tokens.map Token.unify) := by
  rw [TagsValid, List.forall_mem_map]
  rintro ⟨content, source⟩ hMem tag hContent
  cases content with
  | openTag old =>
      obtain rfl := Content.openTag.inj hContent
      rw [invalidNames_unify]
      exact hValid _ hMem old rfl
  | _ => cases hContent

/-- The same tags get a label. -/
theorem Rule.selectsTag_unify (rule : Rule) (tag : OpenTag) :
    rule.selectsTag tag.unify = rule.selectsTag tag := by
  rw [selectsTag, selectsTag, any_name_of_alike tag.alike_readAttributes]
  rfl

end AccessibleMarkup
