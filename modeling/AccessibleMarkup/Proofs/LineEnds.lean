import AccessibleMarkup.Text.Blank
import AccessibleMarkup.Text.LineEnd
import AccessibleMarkup.Text.Span

/-! Pieces of a text whose line ends are unified. A carriage return goes where a line feed follows
it and becomes a line feed elsewhere, so what a piece becomes hangs on what follows the piece, and
on nothing else. Both characters are white space; a test that does not tell them apart cuts a text
and the unified text at the same place. -/
namespace AccessibleMarkup.Text

def feedNext (text : List Char) : Bool :=
  text.head? = some '\n'

/-- A piece of a text with unified line ends. The flag says that a line feed follows the piece. -/
def unifyPiece (feed : Bool) : List Char → List Char
  | [] => []
  | c :: rest =>
    if c = '\r' then
      if rest.isEmpty && feed || feedNext rest then unifyPiece feed rest
      else '\n' :: unifyPiece feed rest
    else c :: unifyPiece feed rest

theorem unifyPiece_cons {c : Char} (hC : c ≠ '\r') (feed : Bool) (rest : List Char) :
    unifyPiece feed (c :: rest) = c :: unifyPiece feed rest := by
  rw [unifyPiece, if_neg hC]

/-- What was unified before stands in front of what is still to be unified. -/
theorem unifyLineEndsOnto_eq (done text : List Char) :
    unifyLineEndsOnto done text = done.reverse ++ unifyPiece false text := by
  fun_induction unifyLineEndsOnto done text with
  | case1 done => simp [unifyPiece]
  | case2 done rest ih => simp [ih, unifyPiece, feedNext]
  | case3 done rest hNext ih =>
      have hRest : feedNext rest = false := by
        cases rest with
        | nil => rfl
        | cons d rest =>
            have hD : d ≠ '\n' := fun hSame => hNext rest (by rw [hSame])
            simp [feedNext, hD]
      simp [ih, unifyPiece, hRest]
  | case4 done c rest hPair hReturn ih =>
      rw [ih, unifyPiece_cons fun hC => hReturn hC]
      simp

/-- A whole text is a piece that nothing follows. -/
theorem unifyLineEnds_eq (text : List Char) : unifyLineEnds text = unifyPiece false text :=
  unifyLineEndsOnto_eq [] text

@[simp] theorem unifyLineEnds_nil : unifyLineEnds [] = [] := rfl

theorem unifyLineEnds_cons {c : Char} (hC : c ≠ '\r') (rest : List Char) :
    unifyLineEnds (c :: rest) = c :: unifyLineEnds rest := by
  rw [unifyLineEnds_eq, unifyLineEnds_eq, unifyPiece_cons hC]

/-- What follows a piece counts for its end only. -/
theorem unifyPiece_append (feed : Bool) (front rest : List Char) :
    unifyPiece feed (front ++ rest) =
      unifyPiece (rest.isEmpty && feed || feedNext rest) front ++ unifyPiece feed rest := by
  induction front with
  | nil => rfl
  | cons c front ih =>
      have hFlag : ((front ++ rest).isEmpty && feed || feedNext (front ++ rest)) =
          (front.isEmpty && (rest.isEmpty && feed || feedNext rest) || feedNext front) := by
        cases front <;> simp [feedNext]
      simp only [List.cons_append, unifyPiece, hFlag, ih]
      split
      · split
        · rfl
        · rfl
      · rfl

/-- Line ends are unified piece by piece. A piece has to know of what follows it only whether that
is a line feed. -/
theorem unifyLineEnds_append (front rest : List Char) :
    unifyLineEnds (front ++ rest) = unifyPiece (feedNext rest) front ++ unifyLineEnds rest := by
  rw [unifyLineEnds_eq, unifyLineEnds_eq, unifyPiece_append]
  simp

/-- Before anything but a line feed, a piece is unified like a text. -/
theorem unifyLineEnds_append_of_feed {rest : List Char} (hRest : feedNext rest = false)
    (front : List Char) :
    unifyLineEnds (front ++ rest) = unifyLineEnds front ++ unifyLineEnds rest := by
  rw [unifyLineEnds_append, hRest, ← unifyLineEnds_eq]

/-- A carriage return goes where a line feed follows. -/
theorem unifyLineEnds_return_of_feed {rest : List Char} (hRest : feedNext rest = true) :
    unifyLineEnds ('\r' :: rest) = unifyLineEnds rest := by
  rw [unifyLineEnds_eq, unifyLineEnds_eq, unifyPiece, if_pos rfl, hRest, Bool.or_true, if_pos rfl]

/-- A carriage return becomes a line feed where none follows. -/
theorem unifyLineEnds_return {rest : List Char} (hRest : feedNext rest = false) :
    unifyLineEnds ('\r' :: rest) = '\n' :: unifyLineEnds rest := by
  rw [unifyLineEnds_eq, unifyLineEnds_eq, unifyPiece, if_pos rfl, hRest, Bool.or_false,
    Bool.and_false, if_neg (by simp)]

/-- A piece that does not end with a carriage return is unified like a text. -/
theorem unifyPiece_of_getLast? {text : List Char} (hLast : text.getLast? ≠ some '\r')
    (feed : Bool) : unifyPiece feed text = unifyLineEnds text := by
  rcases List.eq_nil_or_concat text with rfl | ⟨front, c, rfl⟩
  · rfl
  · have hC : c ≠ '\r' := fun hSame => hLast (by simp [hSame])
    rw [List.concat_eq_append, unifyPiece_append, unifyLineEnds_append, unifyPiece_cons hC,
      unifyLineEnds_cons hC]
    rfl

/-- Behind such a piece the text can be cut. -/
theorem unifyLineEnds_append_of_getLast? {front : List Char} (hLast : front.getLast? ≠ some '\r')
    (rest : List Char) :
    unifyLineEnds (front ++ rest) = unifyLineEnds front ++ unifyLineEnds rest := by
  rw [unifyLineEnds_append, unifyPiece_of_getLast? hLast]

/-- A last character that is no line end stays last. -/
theorem unifyLineEnds_concat {c : Char} (hReturn : c ≠ '\r') (hFeed : c ≠ '\n')
    (front : List Char) : unifyLineEnds (front ++ [c]) = unifyLineEnds front ++ [c] := by
  have hNext : feedNext [c] = false := by simp [feedNext, hFeed]
  rw [unifyLineEnds_append_of_feed hNext, unifyLineEnds_cons hReturn, unifyLineEnds_nil]

/-- What a character becomes where no line feed follows it. -/
def asFeed (c : Char) : Char :=
  if c = '\r' then '\n' else c

theorem asFeed_of_ne {c : Char} (hC : c ≠ '\r') : asFeed c = c := if_neg hC

theorem unifyLineEnds_cons_of_feed {rest : List Char} (hRest : feedNext rest = false) (c : Char) :
    unifyLineEnds (c :: rest) = asFeed c :: unifyLineEnds rest := by
  by_cases hC : c = '\r'
  · rw [hC, unifyLineEnds_return hRest]
    rfl
  · rw [unifyLineEnds_cons hC, asFeed_of_ne hC]

theorem head?_of_feedNext {text : List Char} (hFeed : feedNext text = true) :
    ∃ rest, text = '\n' :: rest :=
  List.head?_eq_some_iff.1 (of_decide_eq_true hFeed)

/-- Induction on a text by what unifying line ends does to its first character: it is dropped, it
is turned into a line feed, or it is kept. -/
@[elab_as_elim]
theorem lineEnds_induction {motive : List Char → Prop} (nil : motive [])
    (dropped : ∀ rest, motive ('\n' :: rest) → motive ('\r' :: '\n' :: rest))
    (turned : ∀ rest, feedNext rest = false → motive rest → motive ('\r' :: rest))
    (kept : ∀ c rest, c ≠ '\r' → motive rest → motive (c :: rest)) (text : List Char) :
    motive text := by
  induction text with
  | nil => exact nil
  | cons c rest ih =>
      by_cases hC : c = '\r'
      · subst hC
        cases hFeed : feedNext rest with
        | true =>
            obtain ⟨rest, rfl⟩ := head?_of_feedNext hFeed
            exact dropped rest ih
        | false => exact turned rest hFeed ih
      · exact kept c rest hC ih

/-- A carriage return before a line feed goes. -/
theorem unifyLineEnds_pair (rest : List Char) :
    unifyLineEnds ('\r' :: '\n' :: rest) = unifyLineEnds ('\n' :: rest) :=
  unifyLineEnds_return_of_feed rfl

/-- The first character is what it was, or a line feed for a carriage return. -/
theorem head?_unifyLineEnds (text : List Char) :
    (unifyLineEnds text).head? = text.head?.map asFeed := by
  induction text using lineEnds_induction with
  | nil => rfl
  | dropped rest ih => rw [unifyLineEnds_pair, ih]; rfl
  | turned rest hFeed => rw [unifyLineEnds_return hFeed]; rfl
  | kept c rest hC =>
      rw [unifyLineEnds_cons hC, List.head?_cons, List.head?_cons, Option.map_some,
        asFeed_of_ne hC]

/-- The cases of a text by what unifying line ends makes of its first character: a line feed of a
carriage return, whatever becomes of the rest, and the same character of any other. -/
@[elab_as_elim]
theorem unifyLineEnds_cases {motive : List Char → Prop} (nil : motive [])
    (turned : ∀ rest left, unifyLineEnds ('\r' :: rest) = '\n' :: left → motive ('\r' :: rest))
    (kept : ∀ c rest, c ≠ '\r' → motive (c :: rest)) (text : List Char) : motive text := by
  cases text with
  | nil => exact nil
  | cons c rest =>
      by_cases hC : c = '\r'
      · subst hC
        obtain ⟨left, hLeft⟩ := List.head?_eq_some_iff.1 (head?_unifyLineEnds ('\r' :: rest))
        exact turned rest left hLeft
      · exact kept c rest hC

/-- The last character is what it was, or a line feed for a carriage return. -/
theorem getLast?_unifyLineEnds (text : List Char) :
    (unifyLineEnds text).getLast? = text.getLast?.map asFeed := by
  rcases List.eq_nil_or_concat text with rfl | ⟨front, c, rfl⟩
  · rfl
  · have hLast : unifyLineEnds [c] = [asFeed c] := by
      by_cases hC : c = '\r'
      · rw [hC]
        rfl
      · rw [unifyLineEnds_cons hC, asFeed_of_ne hC]
        rfl
    rw [List.concat_eq_append, unifyLineEnds_append, hLast, List.getLast?_concat,
      List.getLast?_concat]
    rfl

theorem unifyLineEnds_eq_nil_iff {text : List Char} : unifyLineEnds text = [] ↔ text = [] := by
  rw [← List.head?_eq_none_iff, head?_unifyLineEnds, Option.map_eq_none_iff,
    List.head?_eq_none_iff]

theorem isEmpty_unifyLineEnds (text : List Char) :
    (unifyLineEnds text).isEmpty = text.isEmpty := by
  rw [Bool.eq_iff_iff, List.isEmpty_iff, List.isEmpty_iff, unifyLineEnds_eq_nil_iff]

/-- A line feed is next in the unified text where a line end is next. -/
theorem head?_unifyLineEnds_eq_some {text : List Char} {c : Char} (hC : c ≠ '\n') :
    (unifyLineEnds text).head? = some c ↔ text.head? = some c ∧ c ≠ '\r' := by
  rw [head?_unifyLineEnds, Option.map_eq_some_iff]
  constructor
  · rintro ⟨d, hHead, rfl⟩
    have hD : d ≠ '\r' := fun hSame => hC (by rw [hSame]; rfl)
    rw [asFeed_of_ne hD]
    exact ⟨hHead, hD⟩
  · rintro ⟨hHead, hReturn⟩
    exact ⟨c, hHead, asFeed_of_ne hReturn⟩

/-- All but line feeds are where they were. -/
theorem unifyLineEnds_eq_cons_iff {text rest : List Char} {c : Char} (hReturn : c ≠ '\r')
    (hFeed : c ≠ '\n') :
    unifyLineEnds text = c :: rest ↔ ∃ left, text = c :: left ∧ unifyLineEnds left = rest := by
  constructor
  · intro hText
    have hHead : (unifyLineEnds text).head? = some c := by rw [hText]; rfl
    obtain ⟨left, rfl⟩ := List.head?_eq_some_iff.1
      ((head?_unifyLineEnds_eq_some hFeed).1 hHead).1
    rw [unifyLineEnds_cons hReturn] at hText
    exact ⟨left, rfl, (List.cons.inj hText).2⟩
  · rintro ⟨left, rfl, rfl⟩
    exact unifyLineEnds_cons hReturn left

/-- A text without line ends. -/
def IsOneLine (text : List Char) : Prop :=
  '\r' ∉ text ∧ '\n' ∉ text

instance (text : List Char) : Decidable (IsOneLine text) :=
  inferInstanceAs (Decidable (_ ∧ _))

theorem isOneLine_cons {c : Char} {rest : List Char} :
    IsOneLine (c :: rest) ↔ c ≠ '\r' ∧ c ≠ '\n' ∧ IsOneLine rest := by
  simp only [IsOneLine, List.mem_cons, not_or]
  constructor
  · rintro ⟨⟨hReturn, hReturns⟩, hFeed, hFeeds⟩
    exact ⟨Ne.symm hReturn, Ne.symm hFeed, hReturns, hFeeds⟩
  · rintro ⟨hReturn, hFeed, hReturns, hFeeds⟩
    exact ⟨⟨Ne.symm hReturn, hReturns⟩, Ne.symm hFeed, hFeeds⟩

theorem isOneLine_append {front rest : List Char} :
    IsOneLine (front ++ rest) ↔ IsOneLine front ∧ IsOneLine rest := by
  simp only [IsOneLine, List.mem_append, not_or]
  exact and_and_and_comm

theorem isOneLine_of_test (test : Char → Bool) (hReturn : test '\r' = false)
    (hFeed : test '\n' = false) {text : List Char} (hText : ∀ c ∈ text, test c = true) :
    IsOneLine text :=
  ⟨fun hMem => by simp [hText _ hMem] at hReturn, fun hMem => by simp [hText _ hMem] at hFeed⟩

theorem IsOneLine.feedNext_eq {text : List Char} (hText : IsOneLine text) :
    feedNext text = false := by
  cases text with
  | nil => rfl
  | cons c rest => simp [feedNext, (isOneLine_cons.1 hText).2.1]

theorem IsOneLine.getLast?_ne_return {text : List Char} (hText : IsOneLine text) :
    text.getLast? ≠ some '\r' :=
  fun hLast => hText.1 (List.mem_of_getLast? hLast)

/-- A text without line ends stays as it is. -/
theorem IsOneLine.unifyLineEnds_eq {text : List Char} (hText : IsOneLine text) :
    unifyLineEnds text = text :=
  unifyLineEnds_of_not_mem hText.1

/-- A front without line ends is where it was. -/
theorem unifyLineEnds_eq_append_iff {text front rest : List Char} (hFront : IsOneLine front) :
    unifyLineEnds text = front ++ rest ↔
      ∃ left, text = front ++ left ∧ unifyLineEnds left = rest := by
  induction front generalizing text with
  | nil => simp
  | cons c front ih =>
      obtain ⟨hReturn, hFeed, hFront⟩ := isOneLine_cons.1 hFront
      rw [List.cons_append, unifyLineEnds_eq_cons_iff hReturn hFeed]
      constructor
      · rintro ⟨text, rfl, hText⟩
        obtain ⟨left, rfl, hLeft⟩ := (ih hFront).1 hText
        exact ⟨left, rfl, hLeft⟩
      · rintro ⟨left, rfl, hLeft⟩
        exact ⟨front ++ left, rfl, (ih hFront).2 ⟨left, rfl, hLeft⟩⟩

theorem unifyLineEnds_append_of_oneLine {front : List Char} (hFront : IsOneLine front)
    (rest : List Char) : unifyLineEnds (front ++ rest) = front ++ unifyLineEnds rest :=
  (unifyLineEnds_eq_append_iff hFront).2 ⟨rest, rfl, rfl⟩

/-- All other characters stay. -/
theorem mem_unifyLineEnds {text : List Char} {c : Char} (hReturn : c ≠ '\r') (hFeed : c ≠ '\n') :
    c ∈ unifyLineEnds text ↔ c ∈ text := by
  induction text using lineEnds_induction with
  | nil => rfl
  | dropped rest ih => rw [unifyLineEnds_pair, ih, List.mem_cons (b := '\r'), or_iff_right hReturn]
  | turned rest hNext ih => simp [unifyLineEnds_return hNext, ih, hReturn, hFeed]
  | kept d rest hD ih => rw [unifyLineEnds_cons hD, List.mem_cons, List.mem_cons, ih]

/-- A text holds the same characters as before, line ends aside. -/
theorem contains_unifyLineEnds {c : Char} (hReturn : c ≠ '\r') (hFeed : c ≠ '\n')
    (text : List Char) : (unifyLineEnds text).contains c = text.contains c := by
  rw [Bool.eq_iff_iff, List.contains_iff_mem, List.contains_iff_mem,
    mem_unifyLineEnds hReturn hFeed]

/-- A character that is no line end stands where it stood, before the same text. -/
theorem exists_suffix_of_unifyLineEnds {text rest : List Char} {c : Char} (hFeed : c ≠ '\n')
    (hSuffix : c :: rest <:+ unifyLineEnds text) :
    ∃ left, c :: left <:+ text ∧ unifyLineEnds left = rest := by
  have hLonger {d : Char} {tail : List Char}
      (hTail : ∃ left, c :: left <:+ tail ∧ unifyLineEnds left = rest) :
      ∃ left, c :: left <:+ d :: tail ∧ unifyLineEnds left = rest := by
    obtain ⟨left, hLeft, hRest⟩ := hTail
    exact ⟨left, hLeft.trans (List.suffix_cons d tail), hRest⟩
  induction text using lineEnds_induction with
  | nil => simp at hSuffix
  | dropped tail ih => exact hLonger (ih (by rwa [unifyLineEnds_pair] at hSuffix))
  | turned tail hNext ih =>
      rw [unifyLineEnds_return hNext, List.suffix_cons_iff] at hSuffix
      rcases hSuffix with hHead | hLater
      · exact absurd (List.cons.inj hHead).1 hFeed
      · exact hLonger (ih hLater)
  | kept d tail hD ih =>
      rw [unifyLineEnds_cons hD, List.suffix_cons_iff] at hSuffix
      rcases hSuffix with hHead | hLater
      · obtain ⟨rfl, rfl⟩ := List.cons.inj hHead
        exact ⟨tail, List.suffix_rfl, rfl⟩
      · exact hLonger (ih hLater)

/-- What holds of both characters of line ends holds in the unified text if it holds in the text. -/
theorem all_unifyLineEnds {test : Char → Bool} (hTest : test '\r' = test '\n') (text : List Char) :
    (unifyLineEnds text).all test = text.all test := by
  induction text using lineEnds_induction with
  | nil => rfl
  | dropped rest ih =>
      rw [unifyLineEnds_pair, ih]
      simp [hTest]
  | turned rest hNext ih => rw [unifyLineEnds_return hNext, List.all_cons, List.all_cons, ih, hTest]
  | kept d rest hD ih => rw [unifyLineEnds_cons hD, List.all_cons, List.all_cons, ih]

theorem isOneLine_iff_all {text : List Char} :
    IsOneLine text ↔ text.all (fun c => c != '\r' && c != '\n') = true := by
  rw [List.all_eq_true]
  constructor
  · rintro ⟨hReturn, hFeed⟩ c hMem
    rw [Bool.and_eq_true, bne_iff_ne, bne_iff_ne]
    exact ⟨fun hC => hReturn (hC ▸ hMem), fun hC => hFeed (hC ▸ hMem)⟩
  · intro hAll
    exact ⟨fun hMem => absurd (hAll _ hMem) (by decide),
      fun hMem => absurd (hAll _ hMem) (by decide)⟩

@[simp] theorem isOneLine_unifyLineEnds {text : List Char} :
    IsOneLine (unifyLineEnds text) ↔ IsOneLine text := by
  rw [isOneLine_iff_all, isOneLine_iff_all, all_unifyLineEnds rfl]

/-- A test that does not tell line ends apart, nor what follows from what it is unified to. -/
structure RunTest.BlindToLineEnds (keep : RunTest) : Prop where
  behind : ∀ c rest, c ≠ '\r' → keep c (unifyLineEnds rest) = keep c rest
  lineEnds : ∀ rest other, keep '\r' rest = keep '\n' other

/-- Such a test cuts the unified text where it cuts the text. -/
theorem splitRun_unifyLineEnds {keep : RunTest} (hKeep : keep.BlindToLineEnds) (text : List Char) :
    splitRun keep (unifyLineEnds text) =
      (unifyLineEnds (splitRun keep text).1, unifyLineEnds (splitRun keep text).2) := by
  induction text using lineEnds_induction with
  | nil => rfl
  | dropped rest ih =>
      rw [unifyLineEnds_pair, ih, splitRun_cons keep '\r', splitRun_cons keep '\n',
        hKeep.lineEnds _ rest]
      split
      · rw [unifyLineEnds_pair]
      · rw [unifyLineEnds_pair]
  | turned rest hFeed ih =>
      rw [unifyLineEnds_return hFeed, splitRun_cons keep '\r', splitRun_cons keep '\n', ih,
        hKeep.lineEnds rest (unifyLineEnds rest)]
      split
      · rw [unifyLineEnds_return]
        cases rest with
        | nil => rfl
        | cons d rest =>
            rw [splitRun_cons]
            split
            · exact hFeed
            · rfl
      · rw [unifyLineEnds_return hFeed, unifyLineEnds_nil]
  | kept c rest hC ih =>
      rw [unifyLineEnds_cons hC, splitRun_cons, splitRun_cons, hKeep.behind c rest hC, ih]
      split
      · rw [unifyLineEnds_cons hC]
      · rw [unifyLineEnds_cons hC, unifyLineEnds_nil]

/-- A line feed that is next belongs to a run that line feeds belong to. -/
theorem feedNext_splitRun_fst {keep : RunTest} (hKeep : ∀ rest, keep '\n' rest = true)
    (text : List Char) : feedNext (splitRun keep text).1 = feedNext text := by
  cases text with
  | nil => rfl
  | cons c rest =>
      rw [splitRun_cons]
      split
      · rfl
      · next hC =>
          have hFeed : c ≠ '\n' := fun hSame => hC (hSame ▸ hKeep rest)
          simp [feedNext, hFeed]

/-- A test of characters alone has to agree on the two. -/
theorem blindToLineEnds_of_test {test : Char → Bool} (hTest : test '\r' = test '\n') :
    RunTest.BlindToLineEnds fun c _ => test c :=
  ⟨fun _ _ _ => rfl, fun _ _ => hTest⟩

/-- A run of characters that are no line ends stays as it is. -/
theorem splitRun_unifyLineEnds_of_solid {test : Char → Bool} (hReturn : test '\r' = false)
    (hFeed : test '\n' = false) (text : List Char) :
    splitRun (fun c _ => test c) (unifyLineEnds text) =
      ((splitRun (fun c _ => test c) text).1,
        unifyLineEnds (splitRun (fun c _ => test c) text).2) := by
  have hRun : '\r' ∉ (splitRun (fun c _ => test c) text).1 := fun hMem => by
    rw [forall_mem_splitRun test hMem] at hReturn
    cases hReturn
  rw [splitRun_unifyLineEnds (blindToLineEnds_of_test (hReturn.trans hFeed.symm)),
    unifyLineEnds_of_not_mem hRun]

/-- A mark that is no line end splits the text at the same place. -/
theorem splitAtFirst?_unifyLineEnds {mark : Char} (hReturn : mark ≠ '\r') (hFeed : mark ≠ '\n')
    (text : List Char) :
    splitAtFirst? mark (unifyLineEnds text) =
      (splitAtFirst? mark text).map (Prod.map unifyLineEnds unifyLineEnds) := by
  have hSame : ('\r' != mark) = ('\n' != mark) := by
    rw [bne_iff_ne.2 hReturn.symm, bne_iff_ne.2 hFeed.symm]
  have hTest : RunTest.BlindToLineEnds fun c _ => c != mark :=
    @blindToLineEnds_of_test (fun c => c != mark) hSame
  unfold splitAtFirst?
  rw [contains_unifyLineEnds hReturn hFeed, splitRun_unifyLineEnds hTest]
  split
  · rcases hRun : splitRun (fun c _ => c != mark) text with ⟨before, - | ⟨c, rest⟩⟩
    · rfl
    · have hC : c = mark := by
        have hStop := splitRun_stops (fun c _ => c != mark) (congrArg Prod.snd hRun)
        simpa using hStop
      simp [unifyLineEnds_cons (hC ▸ hReturn : c ≠ '\r')]
  · rfl

end AccessibleMarkup.Text
