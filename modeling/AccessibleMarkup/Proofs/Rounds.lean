import AccessibleMarkup.Proofs.KeptLabels

/-! Cleaning a text again and again. A round that changes the text makes it shorter, so the rounds
come to an end: at a text that the gate accepts, or at one that is no document any more. -/
namespace AccessibleMarkup.Aria

open AccessibleMarkup.Markup
open AccessibleMarkup.Text

/-- Every attribute that is cut out makes the text shorter, whatever blanks are put in. -/
theorem length_rewriteTags_cleanTag_le {tokens : List Token}
    (hSource : ∀ token ∈ tokens, ∀ tag, token.content = .openTag tag → token.source = tag.source) :
    (rewriteTags cleanTag tokens).length + (removed tokens).length ≤
      (tokens.flatMap Token.source).length := by
  induction tokens with
  | nil => simp [rewriteTags, removed]
  | cons token rest ih =>
      have hRest := ih fun other hMem => hSource other (List.mem_cons_of_mem _ hMem)
      rw [List.flatMap_cons, List.length_append]
      rcases token.content.openTag_or_other with ⟨tag, hContent⟩ | hOther
      · have hTag := hSource token (List.mem_cons_self ..) tag hContent
        have hClean := length_cleanTag_le tag
        rw [rewriteTags_cons_openTag cleanTag hContent, removed_cons_openTag rest hContent,
          List.length_append, List.length_append, ← List.countP_eq_length_filter, hTag]
        omega
      · rw [rewriteTags_cons_other cleanTag hOther, removed_cons_other rest hOther,
          List.length_append]
        omega

section
variable {text : List Char} {document : Document} (hRead : Document.read text = .ok document)
include hRead

/-- The texts that the cleanup leaves as they are are those that the gate accepts. -/
theorem clean_eq_self_iff_gate : (clean text).outcome = .ok text ↔ gate text = .ok () :=
  (clean_eq_self_iff hRead).trans (gate_eq_ok_iff hRead).symm

/-- A text that the gate refuses gets shorter. -/
theorem length_clean_lt (hRefused : gate text ≠ .ok ()) {cleaned : List Char}
    (hClean : (clean text).outcome = .ok cleaned) : cleaned.length < text.length := by
  obtain ⟨hSource, -, -, hJoin⟩ := readable_of_read hRead
  rw [clean_of_read hRead, Except.ok.injEq] at hClean
  obtain ⟨written, hRemoved, -⟩ :=
    exists_removed fun hValid => hRefused ((gate_eq_ok_iff hRead).2 hValid)
  have hSome := List.length_pos_of_mem hRemoved
  have hLength := length_rewriteTags_cleanTag_le hSource
  have hWhole := congrArg List.length hJoin
  rw [List.length_append] at hWhole
  rw [← hClean, List.length_append]
  omega

end

/-- A text after that many rounds of the cleanup, or the first failure. -/
def cleanRounds : Nat → List Char → Except Failure (List Char)
  | 0, text => .ok text
  | rounds + 1, text => do
    let cleaned ← (clean text).outcome
    cleanRounds rounds cleaned

/-- A round and then some more are one round more. -/
theorem cleanRounds_succ {rounds : Nat} {text cleaned left : List Char}
    (hClean : (clean text).outcome = .ok cleaned) (hRest : cleanRounds rounds cleaned = .ok left) :
    cleanRounds (rounds + 1) text = .ok left := by
  rw [cleanRounds, hClean, ok_bind]
  exact hRest

/-- No round need follow: the text is no document, or the cleanup leaves it as it is and the gate
accepts it. -/
def Settled (text : List Char) : Prop :=
  (∃ reason, Document.read text = .error reason) ∨
    (clean text).outcome = .ok text ∧ gate text = .ok ()

/-- Rounds of the cleanup settle every text. Each of them takes at least one character, which is the
measure of the induction. -/
theorem cleanRounds_settles (text : List Char) :
    ∃ rounds left, rounds + left.length ≤ text.length ∧ cleanRounds rounds text = .ok left ∧
      Settled left := by
  induction hLength : text.length using Nat.strongRecOn generalizing text with
  | ind length ih =>
      subst hLength
      cases hRead : Document.read text with
      | error reason => exact ⟨0, text, by simp, rfl, .inl ⟨reason, hRead⟩⟩
      | ok document =>
          by_cases hGate : gate text = .ok ()
          · exact ⟨0, text, by simp, rfl, .inr ⟨(clean_eq_self_iff_gate hRead).2 hGate, hGate⟩⟩
          · have hClean := clean_of_read hRead
            have hShorter := length_clean_lt hRead hGate hClean
            obtain ⟨rounds, left, hRounds, hRest, hSettled⟩ := ih _ hShorter _ rfl
            exact ⟨rounds + 1, left, by omega, cleanRounds_succ hClean hRest, hSettled⟩

/-- The cleanup never fails on a document. It leaves exactly those texts as they are that the gate
accepts and makes every other text shorter. So its rounds end at a text that both leave alone, as
long as they lead from document to document. -/
theorem clean_until_settled {text : List Char} {document : Document}
    (hRead : Document.read text = .ok document) :
    (∃ cleaned, (clean text).outcome = .ok cleaned ∧ (cleaned = text ↔ gate text = .ok ()) ∧
      (cleaned ≠ text → cleaned.length < text.length)) ∧
    ∃ rounds left, rounds + left.length ≤ text.length ∧ cleanRounds rounds text = .ok left ∧
      Settled left := by
  have hClean := clean_of_read hRead
  have hSame := clean_eq_self_iff_gate hRead
  rw [hClean, Except.ok.injEq] at hSame
  exact ⟨⟨_, hClean, hSame, fun hChanged =>
    length_clean_lt hRead (fun hGate => hChanged (hSame.2 hGate)) hClean⟩, cleanRounds_settles text⟩

/-- The first round takes the unknown name out and leaves the slash behind it, which makes the value
before it invalid. So the second round takes that attribute as well. -/
theorem clean_until_settled_twice :
    Document.read "<p aria-hidden=true aria-foo/>".toList =
        .ok ⟨[.opened ⟨"p", [⟨"aria-hidden", "true"⟩, ⟨"aria-foo", ""⟩], some ⟨1, 0⟩⟩,
          .closed "p"]⟩ ∧
      cleanRounds 2 "<p aria-hidden=true aria-foo/>".toList = .ok "<p>".toList ∧
      ∃ rounds left, rounds + left.length ≤ 30 ∧
        cleanRounds rounds "<p aria-hidden=true aria-foo/>".toList = .ok left ∧
        Settled left := by
  have hRead : Document.read "<p aria-hidden=true aria-foo/>".toList =
      .ok ⟨[.opened ⟨"p", [⟨"aria-hidden", "true"⟩, ⟨"aria-foo", ""⟩], some ⟨1, 0⟩⟩,
        .closed "p"]⟩ := by
    decide +kernel
  exact ⟨hRead, eq_ok_of_toOption (by decide +kernel), (clean_until_settled hRead).2⟩

end AccessibleMarkup.Aria
