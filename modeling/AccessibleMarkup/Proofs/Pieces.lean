import AccessibleMarkup.Proofs.LabelPlaces

/-! A text together with the labels that rules put into it. One list of pieces tells the text before
the rules and the text behind each of them: the labels of some rules are written, and all others are
left out. A label never comes to stand within a name or within another label, so a rule puts its
labels between the characters of the text before all rules. -/
namespace AccessibleMarkup

open AccessibleMarkup.Markup
open AccessibleMarkup.Text

/-- A character of a text, or the label of a rule that was put in there. -/
inductive Piece where
  | char (c : Char)
  | label (rule : Rule)
  deriving DecidableEq

def Piece.text (rules : List Rule) : Piece → List Char
  | .char c => [c]
  | .label rule => if rule ∈ rules then rule.label else []

def withLabels (rules : List Rule) (pieces : List Piece) : List Char :=
  pieces.flatMap (Piece.text rules)

/-- The places of the labels of a rule, in the text with the labels of some rules, where the pieces
stand behind that many characters. -/
def labelPlaces (rules : List Rule) (rule : Rule) : Nat → List Piece → List Nat
  | _, [] => []
  | offset, piece :: rest =>
    let later := labelPlaces rules rule (offset + (piece.text rules).length) rest
    if piece = .label rule then offset :: later else later

def withoutLabels (rule : Rule) (pieces : List Piece) : List Piece :=
  pieces.filter fun piece => piece ≠ .label rule

section
variable {rules : List Rule}

@[simp] theorem withLabels_nil : withLabels rules [] = [] := rfl

@[simp] theorem withLabels_append (pieces others : List Piece) :
    withLabels rules (pieces ++ others) = withLabels rules pieces ++ withLabels rules others :=
  List.flatMap_append

@[simp] theorem withLabels_char_cons (c : Char) (pieces : List Piece) :
    withLabels rules (.char c :: pieces) = c :: withLabels rules pieces := rfl

theorem withLabels_label_cons {rule : Rule} (hMem : rule ∈ rules) (pieces : List Piece) :
    withLabels rules (.label rule :: pieces) = rule.label ++ withLabels rules pieces := by
  simp [withLabels, Piece.text, hMem]

theorem withLabels_label_cons_of_not_mem {rule : Rule} (hMem : rule ∉ rules)
    (pieces : List Piece) :
    withLabels rules (.label rule :: pieces) = withLabels rules pieces := by
  simp [withLabels, Piece.text, hMem]

@[simp] theorem withLabels_map_char (text : List Char) :
    withLabels rules (text.map .char) = text := by
  induction text with
  | nil => rfl
  | cons c rest ih => rw [List.map_cons, withLabels_char_cons, ih]

/-- What stands in no label stands in a text with labels only where it is a character of its own. -/
theorem mem_withLabels {c : Char} (hLabel : ∀ rule ∈ rules, c ∉ rule.label) {pieces : List Piece} :
    c ∈ withLabels rules pieces ↔ .char c ∈ pieces := by
  refine List.mem_flatMap.trans ⟨?_, fun hMem => ⟨.char c, hMem, List.mem_singleton_self c⟩⟩
  rintro ⟨piece, hMem, hText⟩
  cases piece with
  | char d =>
      obtain rfl := List.mem_singleton.1 hText
      exact hMem
  | label rule =>
      rw [Piece.text] at hText
      split at hText
      · exact absurd hText (hLabel rule ‹_›)
      · cases hText

/-- Only the rules whose labels are there count. -/
theorem withLabels_congr {others : List Rule} {pieces : List Piece}
    (hSame : ∀ rule, .label rule ∈ pieces → (rule ∈ rules ↔ rule ∈ others)) :
    withLabels rules pieces = withLabels others pieces := by
  refine List.flatMap_congr fun piece hMem => ?_
  cases piece with
  | char c => rfl
  | label rule => simp only [Piece.text, hSame rule hMem]

/-- Labels that are not written do not matter to the text. -/
theorem withLabels_withoutLabels {rule : Rule} (hMem : rule ∉ rules) (pieces : List Piece) :
    withLabels rules (withoutLabels rule pieces) = withLabels rules pieces := by
  induction pieces with
  | nil => rfl
  | cons piece rest ih =>
      by_cases hPiece : piece = .label rule
      · subst hPiece
        rw [withLabels_label_cons_of_not_mem hMem, ← ih]
        simp [withoutLabels]
      · have hKept : withoutLabels rule (piece :: rest) = piece :: withoutLabels rule rest := by
          simp [withoutLabels, hPiece]
        rw [hKept, withLabels, List.flatMap_cons, withLabels, List.flatMap_cons]
        exact congrArg _ ih

/-- Labels that are not written do not matter to the places of others. -/
theorem labelPlaces_withoutLabels {rule other : Rule} (hMem : rule ∉ rules) (hOther : other ≠ rule)
    (offset : Nat) (pieces : List Piece) :
    labelPlaces rules other offset (withoutLabels rule pieces) =
      labelPlaces rules other offset pieces := by
  induction pieces generalizing offset with
  | nil => rfl
  | cons piece rest ih =>
      by_cases hPiece : piece = .label rule
      · subst hPiece
        have hEmpty : (Piece.label rule).text rules = [] := by simp [Piece.text, hMem]
        have hLabel : Piece.label rule ≠ .label other := fun hSame =>
          hOther (Piece.label.inj hSame).symm
        rw [labelPlaces, hEmpty, if_neg hLabel, List.length_nil, Nat.add_zero, ← ih]
        simp [withoutLabels]
      · have hKept : withoutLabels rule (piece :: rest) = piece :: withoutLabels rule rest := by
          simp [withoutLabels, hPiece]
        rw [hKept, labelPlaces, labelPlaces, ih]

/-- The places behind some pieces are counted from the text that the pieces write. -/
theorem labelPlaces_append (rule : Rule) (offset : Nat) (pieces others : List Piece) :
    labelPlaces rules rule offset (pieces ++ others) =
      labelPlaces rules rule offset pieces ++
        labelPlaces rules rule (offset + (withLabels rules pieces).length) others := by
  induction pieces generalizing offset with
  | nil => rfl
  | cons piece rest ih =>
      have hLength : offset + (piece.text rules).length + (withLabels rules rest).length =
          offset + (withLabels rules (piece :: rest)).length := by
        rw [withLabels, withLabels, List.flatMap_cons, List.length_append]
        omega
      rw [List.cons_append, labelPlaces, labelPlaces, ih, hLength]
      split <;> rfl

theorem labelPlaces_eq_nil {rule : Rule} {pieces : List Piece} (hNone : .label rule ∉ pieces)
    (offset : Nat) : labelPlaces rules rule offset pieces = [] := by
  induction pieces generalizing offset with
  | nil => rfl
  | cons piece rest ih =>
      have hPiece : piece ≠ .label rule := by
        rintro rfl
        exact hNone (List.mem_cons_self ..)
      rw [labelPlaces, if_neg hPiece]
      exact ih (fun hMem => hNone (List.mem_cons_of_mem _ hMem)) _

end

/-- Text without a blank is made of characters, since labels begin with one. -/
theorem exists_map_char {rules : List Rule} {pieces : List Piece}
    (hLabels : ∀ rule, .label rule ∈ pieces → rule ∈ rules)
    {name behind : List Char} (hName : ' ' ∉ name)
    (hText : withLabels rules pieces = name ++ behind) :
    ∃ rest, pieces = name.map .char ++ rest ∧ withLabels rules rest = behind := by
  induction name generalizing pieces with
  | nil => exact ⟨pieces, rfl, hText⟩
  | cons c name ih =>
      cases pieces with
      | nil => simp at hText
      | cons piece rest =>
          have hRest := fun rule hMem => hLabels rule (List.mem_cons_of_mem _ hMem)
          cases piece with
          | char d =>
              rw [withLabels_char_cons, List.cons_append, List.cons.injEq] at hText
              obtain ⟨rfl, hText⟩ := hText
              obtain ⟨later, rfl, hLater⟩ :=
                ih hRest (fun hMem => hName (List.mem_cons_of_mem _ hMem)) hText
              exact ⟨later, rfl, hLater⟩
          | label rule =>
              rw [withLabels_label_cons (hLabels rule (List.mem_cons_self ..)), Rule.label_eq,
                List.cons_append, List.cons_append] at hText
              rw [← (List.cons.inj hText).1] at hName
              simp at hName

/-- A tag in the text with labels begins with a character of the text without them. -/
theorem exists_pieces_of_tag {rules : List Rule} (hRules : ∀ rule ∈ rules, rule ∈ Rule.all)
    {pieces : List Piece} (hLabels : ∀ rule, .label rule ∈ pieces → rule ∈ rules)
    {front name behind : List Char} (hName : ' ' ∉ name)
    (hText : withLabels rules pieces = front ++ '<' :: (name ++ behind)) :
    ∃ before rest, pieces = before ++ (('<' :: name).map .char ++ rest) ∧
      withLabels rules before = front ∧ withLabels rules rest = behind := by
  induction pieces generalizing front with
  | nil => simp at hText
  | cons piece pieces ih =>
      have hRest := fun rule hMem => hLabels rule (List.mem_cons_of_mem _ hMem)
      cases piece with
      | label rule =>
          have hMem := hLabels rule (List.mem_cons_self ..)
          rw [withLabels_label_cons hMem] at hText
          obtain ⟨left, rfl, hLeft⟩ :=
            append_cons_eq_append (Rule.open_not_mem_label (hRules rule hMem)) hText.symm
          obtain ⟨before, rest, rfl, rfl, hBehind⟩ := ih hRest hLeft
          exact ⟨.label rule :: before, rest, rfl, withLabels_label_cons hMem before, hBehind⟩
      | char c =>
          cases front with
          | nil =>
              have hOpen : ' ' ∉ '<' :: name := by simp [hName]
              obtain ⟨rest, hPieces, hBehind⟩ := exists_map_char hLabels hOpen hText
              exact ⟨[], rest, hPieces, rfl, hBehind⟩
          | cons d front =>
              rw [withLabels_char_cons, List.cons_append, List.cons.injEq] at hText
              obtain ⟨rfl, hText⟩ := hText
              obtain ⟨before, rest, rfl, rfl, hBehind⟩ := ih hRest hText
              exact ⟨.char c :: before, rest, rfl, rfl, hBehind⟩

/-- The pieces in front end with `<` and the name of a tag, which ends there without labels too. -/
def BehindName (front behind : List Piece) : Prop :=
  ∃ before name, front = before ++ ('<' :: name).map .char ∧
    readTagName? (name ++ withLabels [] behind) = some (name, withLabels [] behind)

/-- Whatever could be the name of a tag at the end of the pieces, it is the name that the rule looks
for. -/
def NamesTag (rule : Rule) (front : List Piece) : Prop :=
  ∀ before name, front = before ++ ('<' :: name).map .char → IsTagName name →
    String.ofList (lowercase name) = rule.tag

/-- The label of one of some rules stands directly behind the name of a tag, and of none but a tag
of its kind if the rule looks for elements. -/
structure LabelStands (rules : List Rule) (front : List Piece) (rule : Rule)
    (behind : List Piece) : Prop where
  mem : rule ∈ rules
  behindName : BehindName front behind
  namesTag : rule.finder = .elements → NamesTag rule front

/-- All labels among the pieces stand directly behind names of tags. -/
def LabelsStand (rules : List Rule) (pieces : List Piece) : Prop :=
  ∀ front rule behind, pieces = front ++ .label rule :: behind →
    LabelStands rules front rule behind

theorem LabelsStand.mem {rules : List Rule} {pieces : List Piece}
    (hStand : LabelsStand rules pieces) {rule : Rule} (hMem : .label rule ∈ pieces) :
    rule ∈ rules := by
  obtain ⟨front, behind, rfl⟩ := List.append_of_mem hMem
  exact (hStand front rule behind rfl).mem

theorem label_not_mem_map_char (rule : Rule) (text : List Char) :
    Piece.label rule ∉ text.map .char := by
  simp

/-- What a label stands behind is made of characters, so it does not reach back over a label. -/
theorem eq_append_of_map_char {front before after : List Piece} {rule : Rule} {text : List Char}
    (hNonempty : text ≠ []) (hJoin : front ++ .label rule :: after = before ++ text.map .char) :
    ∃ between, before = front ++ .label rule :: between ∧ after = between ++ text.map .char := by
  rcases List.append_eq_append_iff.1 hJoin with ⟨left, hBefore, hAfter⟩ | ⟨left, -, hText⟩
  · cases left with
    | nil =>
        obtain ⟨c, rest, rfl⟩ := List.exists_cons_of_ne_nil hNonempty
        simp at hAfter
    | cons piece left =>
        obtain ⟨rfl, rfl⟩ := List.cons.inj hAfter
        exact ⟨left, hBefore, rfl⟩
  · exact absurd (by rw [hText]; simp) (label_not_mem_map_char rule text)

/-- A label is put in behind a name that none stands behind, and all labels stand as before. -/
theorem LabelsStand.put {rules : List Rule} {front behind : List Piece} {rule : Rule}
    (hStand : LabelsStand rules (front ++ behind)) (hMem : rule ∈ rules)
    (hBehind : BehindName front behind) (hTag : rule.finder = .elements → NamesTag rule front)
    (hFree : ∀ other, .label other ∉ behind.head?) :
    LabelsStand rules (front ++ .label rule :: behind) := by
  intro before other after hSplit
  have hHere (hFront : before = front)
      (hLater : Piece.label rule :: behind = .label other :: after) :
      LabelStands rules before other after := by
    obtain ⟨hLabel, rfl⟩ := List.cons.inj hLater
    rw [hFront, ← Piece.label.inj hLabel]
    exact ⟨hMem, hBehind, hTag⟩
  rcases List.append_eq_append_iff.1 hSplit with ⟨left, hBefore, hLater⟩ | ⟨left, hFront, hLater⟩
  · cases left with
    | nil => exact hHere (by simpa using hBefore) hLater
    | cons piece left =>
        obtain ⟨rfl, rfl⟩ := List.cons.inj hLater
        obtain ⟨hOther, ⟨start, name, hJoin, hRead⟩, hName⟩ :=
          hStand (front ++ left) other after (by simp)
        subst hBefore
        refine ⟨hOther, ?_, fun hFinder start name hJoin hIsName => ?_⟩
        · obtain ⟨_, _, _, hEnds⟩ := hBehind
          have hStops := (readTagName?_eq_some_iff.1 hEnds).2.2
          have hIsName := (readTagName?_eq_some_iff.1 hRead).2.1
          rcases List.append_eq_append_iff.1 hJoin with ⟨more, -, hLeft⟩ | ⟨more, -, hChars⟩
          · exact ⟨front ++ .label rule :: more, name, by simp [hLeft], hRead⟩
          · exfalso
            cases left with
            | nil => exact hFree other (by simp)
            | cons piece left =>
                obtain ⟨c, hC, rfl⟩ : ∃ c ∈ '<' :: name, Piece.char c = piece :=
                  List.mem_map.1 (by rw [hChars]; simp)
                have hContinues : continuesTagName c = true := by
                  rcases List.mem_cons.1 hC with rfl | hC
                  · rfl
                  · exact hIsName.continues c hC
                have hStop : continuesTagName c = false := hStops
                rw [hContinues] at hStop
                simp at hStop
        · obtain ⟨between, -, rfl⟩ := eq_append_of_map_char (by simp) hJoin
          exact hName hFinder (front ++ between) name (by simp) hIsName
  · cases left with
    | nil => exact hHere (by simpa using hFront.symm) hLater.symm
    | cons piece left =>
        rw [List.cons_append] at hLater
        obtain ⟨rfl, rfl⟩ := List.cons.inj hLater
        obtain ⟨hOther, ⟨start, name, hJoin, hRead⟩, hName⟩ :=
          hStand before other (left ++ behind) (by simp [hFront])
        refine ⟨hOther, ⟨start, name, hJoin, ?_⟩, hName⟩
        have hSame : withLabels [] (left ++ .label rule :: behind) =
            withLabels [] (left ++ behind) := by
          rw [withLabels_append, withLabels_append,
            withLabels_label_cons_of_not_mem (List.not_mem_nil)]
        rw [hSame]
        exact hRead

end AccessibleMarkup
