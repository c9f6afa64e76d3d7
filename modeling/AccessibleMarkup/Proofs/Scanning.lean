import AccessibleMarkup.Proofs.Consumption

/-! The run of the tokeniser as a relation. A run is a sequence of steps, each of which takes its
token off the front of the text; the relation holds exactly for what the tokeniser returns on a text
that it does not reject. -/
namespace AccessibleMarkup.Markup

open AccessibleMarkup.Text

/-- A whole run over a text, with its tokens and the part that is dropped. A text that is rejected
has no run. -/
inductive Scans : Pass → Option (List Char) → List Char → List Token → List Char → Prop where
  | nil (pass : Pass) (rawText : Option (List Char)) : Scans pass rawText [] [] []
  | token {pass : Pass} {rawText next : Option (List Char)} {c : Char} {content : Content}
      {more rest dropped : List Char} {tokens : List Token}
      (step : nextStep pass rawText c (more ++ rest) = .token content more next)
      (tail : Scans pass next rest tokens dropped) :
      Scans pass rawText (c :: (more ++ rest)) (⟨content, c :: more⟩ :: tokens) dropped
  | lastToken {rawText : Option (List Char)} {c : Char} {content : Content}
      {more rest dropped : List Char} {tokens : List Token}
      (step : nextStep .first rawText c (more ++ rest) = .lastToken content more)
      (tail : Scans .last rawText rest tokens dropped) :
      Scans .first rawText (c :: (more ++ rest)) (⟨content, c :: more⟩ :: tokens) dropped
  | stop {rawText : Option (List Char)} {c : Char} {rest dropped : List Char}
      {tokens : List Token} (step : nextStep .first rawText c rest = .stop)
      (tail : Scans .last rawText (c :: rest) tokens dropped) :
      Scans .first rawText (c :: rest) tokens dropped
  | lastTokenEnd {rawText : Option (List Char)} {c : Char} {content : Content}
      {more rest : List Char}
      (step : nextStep .last rawText c (more ++ rest) = .lastToken content more) :
      Scans .last rawText (c :: (more ++ rest))
        (⟨content, c :: more⟩ :: (scanEnd [] rawText rest).tokens)
        (scanEnd [] rawText rest).dropped
  | stopEnd {rawText : Option (List Char)} {c : Char} {rest : List Char}
      (step : nextStep .last rawText c rest = .stop) :
      Scans .last rawText (c :: rest) (scanEnd [] rawText (c :: rest)).tokens
        (scanEnd [] rawText (c :: rest)).dropped

@[simp] theorem scanOnto_nil (done : List Token) (pass : Pass) (rawText : Option (List Char)) :
    scanOnto done pass rawText [] = ⟨done.reverse, [], none⟩ := by
  rw [scanOnto.eq_def]

/-- A run goes on behind the token that is next, and the last pass follows where the first one
stops. -/
theorem scanOnto_cons (done : List Token) (pass : Pass) (rawText : Option (List Char)) (c : Char)
    (rest : List Char) :
    scanOnto done pass rawText (c :: rest) =
      match nextStep pass rawText c rest with
      | .token content more next =>
        scanOnto (⟨content, c :: more⟩ :: done) pass next (rest.drop more.length)
      | .lastToken content more =>
        match pass with
        | .first => scanOnto (⟨content, c :: more⟩ :: done) .last rawText (rest.drop more.length)
        | .last => scanEnd (⟨content, c :: more⟩ :: done) rawText (rest.drop more.length)
      | .stop =>
        match pass with
        | .first => scanOnto done .last rawText (c :: rest)
        | .last => scanEnd done rawText (c :: rest)
      | .reject reason => ⟨done.reverse, c :: rest, some reason⟩ :=
  scanOnto.eq_def done pass rawText (c :: rest)

def Scan.behind (scan : Scan) (tokens : List Token) : Scan :=
  { scan with tokens := tokens ++ scan.tokens }

theorem scanEnd_eq (done : List Token) (rawText : Option (List Char)) (text : List Char) :
    scanEnd done rawText text = (scanEnd [] rawText text).behind done.reverse := by
  unfold scanEnd
  split <;> simp [Scan.behind]

/-- A run does not hang on the tokens that were read before. -/
theorem scanOnto_eq (done : List Token) (pass : Pass) (rawText : Option (List Char))
    (text : List Char) :
    scanOnto done pass rawText text = (scanOnto [] pass rawText text).behind done.reverse := by
  induction hMeasure : 2 * text.length + pass.left using Nat.strongRecOn
    generalizing done pass rawText text with
  | ind measure ih =>
      cases text with
      | nil => simp [Scan.behind]
      | cons c rest =>
          rw [scanOnto_cons done, scanOnto_cons []]
          cases hStep : nextStep pass rawText c rest with
          | token content more next =>
              have hLess : 2 * (rest.drop more.length).length + pass.left < measure := by
                simp only [← hMeasure, List.length_cons, List.length_drop]
                omega
              simp only
              rw [ih _ hLess (⟨content, c :: more⟩ :: done) pass next _ rfl,
                ih _ hLess [⟨content, c :: more⟩] pass next _ rfl]
              simp [Scan.behind]
          | lastToken content more =>
              cases pass with
              | first =>
                  have hLess : 2 * (rest.drop more.length).length + Pass.last.left < measure := by
                    simp only [← hMeasure, List.length_cons, List.length_drop, Pass.left]
                    omega
                  simp only
                  rw [ih _ hLess (⟨content, c :: more⟩ :: done) .last rawText _ rfl,
                    ih _ hLess [⟨content, c :: more⟩] .last rawText _ rfl]
                  simp [Scan.behind]
              | last =>
                  simp only
                  rw [scanEnd_eq (⟨content, c :: more⟩ :: done), scanEnd_eq [⟨content, c :: more⟩]]
                  simp [Scan.behind]
          | stop =>
              cases pass with
              | first =>
                  have hLess : 2 * (c :: rest).length + Pass.last.left < measure := by
                    simp only [← hMeasure, Pass.left]
                    omega
                  exact ih _ hLess done .last rawText _ rfl
              | last => exact scanEnd_eq done rawText _
          | reject reason => simp [Scan.behind]

/-- A text that is not rejected has a run, and the tokeniser returns what the run does. -/
theorem scans_of_scanOnto {pass : Pass} {rawText : Option (List Char)} {text dropped : List Char}
    {tokens : List Token} (hScan : scanOnto [] pass rawText text = ⟨tokens, dropped, none⟩) :
    Scans pass rawText text tokens dropped := by
  induction hMeasure : 2 * text.length + pass.left using Nat.strongRecOn
    generalizing pass rawText text tokens dropped with
  | ind measure ih =>
      cases text with
      | nil =>
          rw [scanOnto_nil] at hScan
          cases hScan
          exact .nil pass rawText
      | cons c rest =>
          have hConsumes := nextStep_consumes pass rawText c rest
          rw [scanOnto_cons] at hScan
          cases hStep : nextStep pass rawText c rest with
          | token content more next =>
              rw [hStep] at hConsumes hScan
              obtain ⟨behind, rfl⟩ := hConsumes
              simp only [List.drop_left] at hScan
              rw [scanOnto_eq] at hScan
              have hLess : 2 * behind.length + pass.left < measure := by
                simp only [← hMeasure, List.length_cons, List.length_append]
                omega
              cases hTail : scanOnto [] pass next behind with
              | mk later left rejection =>
                  rw [hTail] at hScan
                  cases hScan
                  exact .token hStep (ih _ hLess hTail rfl)
          | lastToken content more =>
              rw [hStep] at hConsumes hScan
              obtain ⟨behind, rfl⟩ := hConsumes
              cases pass with
              | first =>
                  simp only [List.drop_left] at hScan
                  rw [scanOnto_eq] at hScan
                  have hLess : 2 * behind.length + Pass.last.left < measure := by
                    simp only [← hMeasure, List.length_cons, List.length_append, Pass.left]
                    omega
                  cases hTail : scanOnto [] .last rawText behind with
                  | mk later left rejection =>
                      rw [hTail] at hScan
                      cases hScan
                      exact .lastToken hStep (ih _ hLess hTail rfl)
              | last =>
                  simp only [List.drop_left] at hScan
                  rw [scanEnd_eq] at hScan
                  have hTokens := congrArg Scan.tokens hScan
                  have hDropped := congrArg Scan.dropped hScan
                  simp only [Scan.behind, List.reverse_singleton, List.singleton_append]
                    at hTokens hDropped
                  subst hTokens hDropped
                  exact .lastTokenEnd hStep
          | stop =>
              rw [hStep] at hScan
              cases pass with
              | first =>
                  have hLess : 2 * (c :: rest).length + Pass.last.left < measure := by
                    simp only [← hMeasure, Pass.left]
                    omega
                  exact .stop hStep (ih _ hLess hScan rfl)
              | last =>
                  have hEnd := Scans.stopEnd hStep
                  simp only at hScan
                  rw [hScan] at hEnd
                  exact hEnd
          | reject reason =>
              rw [hStep] at hScan
              simp at hScan

theorem rejection_scanEnd (rawText : Option (List Char)) (text : List Char) :
    (scanEnd [] rawText text).rejection = none := by
  unfold scanEnd
  split <;> rfl

theorem join_scanEnd (rawText : Option (List Char)) (text : List Char) :
    (scanEnd [] rawText text).tokens.flatMap Token.source ++ (scanEnd [] rawText text).dropped =
      text := by
  unfold scanEnd
  split <;> simp

/-- What is left at the end of a run holds no tag. -/
theorem not_openTag_of_mem_scanEnd {rawText : Option (List Char)} {text : List Char} {token : Token}
    (hMem : token ∈ (scanEnd [] rawText text).tokens) (tag : OpenTag) :
    token.content ≠ .openTag tag := by
  unfold scanEnd at hMem
  split at hMem
  · rw [List.mem_singleton.1 hMem]
    simp
  · simp at hMem

/-- A run is what the tokeniser returns. -/
theorem Scans.scanOnto_eq {pass : Pass} {rawText : Option (List Char)} {text dropped : List Char}
    {tokens : List Token} (scans : Scans pass rawText text tokens dropped) :
    scanOnto [] pass rawText text = ⟨tokens, dropped, none⟩ := by
  induction scans with
  | nil => simp
  | token step tail ih =>
      rw [scanOnto_cons, step]
      simp only [List.drop_left]
      rw [Markup.scanOnto_eq, ih]
      simp [Scan.behind]
  | lastToken step tail ih =>
      rw [scanOnto_cons, step]
      simp only [List.drop_left]
      rw [Markup.scanOnto_eq, ih]
      simp [Scan.behind]
  | stop step tail ih =>
      rw [scanOnto_cons, step]
      exact ih
  | @lastTokenEnd rawText c content more rest step =>
      rw [scanOnto_cons, step]
      simp only [List.drop_left]
      rw [scanEnd_eq]
      simp [Scan.behind, rejection_scanEnd rawText rest]
  | @stopEnd rawText c rest step =>
      rw [scanOnto_cons, step]
      simp only
      rw [← rejection_scanEnd rawText (c :: rest)]

/-- Nothing of a text is lost between its tokens. -/
theorem Scans.join {pass : Pass} {rawText : Option (List Char)} {text dropped : List Char}
    {tokens : List Token} (scans : Scans pass rawText text tokens dropped) :
    tokens.flatMap Token.source ++ dropped = text := by
  induction scans with
  | nil => rfl
  | token step tail ih => simp [List.append_assoc, ih]
  | lastToken step tail ih => simp [List.append_assoc, ih]
  | stop step tail ih => exact ih
  | @lastTokenEnd rawText c content more rest step =>
      simp [List.append_assoc, join_scanEnd rawText rest]
  | @stopEnd rawText c rest step => exact join_scanEnd rawText (c :: rest)

end AccessibleMarkup.Markup
