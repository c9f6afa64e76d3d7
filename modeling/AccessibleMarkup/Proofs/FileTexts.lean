import AccessibleMarkup.Files.Enhance
import AccessibleMarkup.Proofs.LineEndsInInputs

/-! What enhancing a file comes to. A text that is read from a file has line feeds for its line
ends, and a text is written to a file as it is, so the file gets the enhanced text with line feeds.
-/
namespace AccessibleMarkup

open AccessibleMarkup.Text

namespace Text

/-- No carriage return is left among unified line ends. -/
theorem return_not_mem_unifyLineEndsOnto {done : List Char} (hDone : '\r' ∉ done)
    (text : List Char) : '\r' ∉ unifyLineEndsOnto done text := by
  fun_induction unifyLineEndsOnto done text with
  | case1 done => exact fun hMem => hDone (List.mem_reverse.1 hMem)
  | case2 done rest ih => exact ih (by simp [hDone])
  | case3 done rest hNext ih => exact ih (by simp [hDone])
  | case4 done c rest hPair hReturn ih =>
      exact ih fun hMem => (List.mem_cons.1 hMem).elim (fun hC => hReturn hC.symm) hDone

/-- No carriage return is left in a text with unified line ends. -/
theorem return_not_mem_unifyLineEnds (text : List Char) : '\r' ∉ unifyLineEnds text :=
  return_not_mem_unifyLineEndsOnto List.not_mem_nil text

/-- Unifying line ends changes every text with a carriage return, and no other text. -/
theorem unifyLineEnds_eq_self_iff {text : List Char} :
    unifyLineEnds text = text ↔ '\r' ∉ text :=
  ⟨fun hSame => hSame ▸ return_not_mem_unifyLineEnds text, unifyLineEnds_of_not_mem⟩

end Text

/-- A rule labels the same tags. -/
theorem Rule.apply_unify {rule : Rule} (hRule : rule ∈ all) {text labelled : List Char}
    (hApply : (rule.apply text).outcome = .ok labelled) :
    (rule.apply (unifyLineEnds text)).outcome = .ok (unifyLineEnds labelled) := by
  have hKinds : ∀ rule ∈ all, rule.finder = .elements ∨ rule = inputs := by decide
  rcases hKinds rule hRule with hFinder | rfl
  · exact apply_unify_of_elements hRule hFinder hApply
  · exact apply_unify_of_inputs hApply

/-- Labels go to the same places whether line ends are unified before or after. -/
theorem addLabels_unify {rules : List Rule} (hRules : ∀ rule ∈ rules, rule ∈ Rule.all)
    {text labelled : List Char} (hAdd : (addLabels rules text).outcome = .ok labelled) :
    (addLabels rules (unifyLineEnds text)).outcome = .ok (unifyLineEnds labelled) := by
  induction rules generalizing text with
  | nil =>
      cases hAdd
      rfl
  | cons rule rest ih =>
      rw [addLabels, List.foldlM_cons, Logged.outcome_bind, bind_eq_ok_iff] at hAdd
      obtain ⟨middle, hApply, hRest⟩ := hAdd
      rw [addLabels, List.foldlM_cons, Logged.outcome_bind,
        Rule.apply_unify (hRules rule (List.mem_cons_self ..)) hApply]
      exact ih (fun other hMem => hRules other (List.mem_cons_of_mem _ hMem)) hRest

namespace Text

theorem Utf8.foldl_utf8Size (size : Nat) (text : List Char) :
    text.foldl (fun size c => size + c.utf8Size) size = size + byteLength text := by
  unfold byteLength
  induction text generalizing size with
  | nil => rfl
  | cons c rest ih =>
      rw [List.foldl_cons, List.foldl_cons, ih, ih (0 + c.utf8Size)]
      omega

theorem Utf8.byteLength_cons (c : Char) (rest : List Char) :
    byteLength (c :: rest) = c.utf8Size + byteLength rest := by
  rw [byteLength, List.foldl_cons, foldl_utf8Size, Nat.zero_add]

/-- Unifying line ends makes no text larger. -/
theorem byteLength_unifyLineEnds_le (text : List Char) :
    Utf8.byteLength (unifyLineEnds text) ≤ Utf8.byteLength text := by
  induction text using lineEnds_induction with
  | nil => exact Nat.le_refl _
  | dropped rest ih =>
      rw [unifyLineEnds_pair, Utf8.byteLength_cons '\r']
      omega
  | turned rest hFeed ih =>
      have hSame : Char.utf8Size '\n' = Char.utf8Size '\r' := rfl
      rw [unifyLineEnds_return hFeed, Utf8.byteLength_cons, Utf8.byteLength_cons]
      omega
  | kept c rest hC ih =>
      rw [unifyLineEnds_cons hC, Utf8.byteLength_cons, Utf8.byteLength_cons]
      omega

end Text

/-- Enhancing a text with unified line ends comes to the enhanced text with unified line ends. -/
theorem enhance_unifyLineEnds {config : Config} {text enhanced : List Char}
    (hEnhance : enhance config text = .ok enhanced) :
    enhance config (unifyLineEnds text) = .ok (unifyLineEnds enhanced) := by
  obtain ⟨hSize, labelled, hAdd, hClean, hGate⟩ := enhance_eq_ok_iff.1 hEnhance
  exact enhance_eq_ok_iff.2 ⟨(byteLength_unifyLineEnds_le text).trans hSize,
    unifyLineEnds labelled, addLabels_unify config.mem_all_of_mem_rules hAdd,
    Aria.clean_unify hClean, Aria.gate_unify hGate⟩

namespace Files

section
variable {system : FileSystem} {place : Place} {bytes : ByteArray}

/-- A file holds what was written to it. -/
@[simp] theorem bytes?_set : (system.set place bytes).bytes? place = some bytes := by
  simp [FileSystem.bytes?, FileSystem.set]

/-- Writing a file leaves the others as they are. -/
theorem bytes?_set_of_ne {other : Place} (hOther : other ≠ place) :
    (system.set place bytes).bytes? other = system.bytes? other := by
  have hPlace : place ≠ other := hOther.symm
  simp only [FileSystem.bytes?, FileSystem.set, List.find?_cons, hPlace, decide_false,
    List.find?_filter]
  congr 2
  funext file
  by_cases hFile : file.place = other
  · simp [hFile, hOther]
  · simp [hFile]

end

/-- Where a path can be followed at all. -/
theorem routeOf_eq {written : String} (hNull : '\x00' ∉ written.toList)
    (hSome : written.isEmpty = false) (hSize : written.utf8ByteSize ≤ maxPathSize) :
    FileSystem.routeOf written = .ok (Route.ofString written) := by
  rw [FileSystem.routeOf, String.contains_char_eq, if_neg (by simpa using hNull),
    if_neg (by simp [hSome]), if_neg (by omega)]

/-- Two texts are told apart by their bytes. -/
theorem encode_injective {text other : String} (hSame : Utf8.encode text = Utf8.encode other) :
    text = other := by
  have hDecode := congrArg Utf8.decode hSame
  rw [Utf8.decode_encode, Utf8.decode_encode] at hDecode
  exact Except.ok.inj hDecode

/-- What was done leaves this text in the file at the place. -/
def Leaves (done : Except Failure (Path × FileSystem)) (place : Place) (text : List Char) : Prop :=
  ∃ path system, done = .ok (path, system) ∧
    system.bytes? place = some (Utf8.encode (String.ofList text))

/-- A file is left with the text that was written to it, and with no other. -/
theorem leaves_set_iff {system : FileSystem} {target : Path} {place : Place}
    {text other : List Char} :
    Leaves (.ok (target, system.set place (Utf8.encode (String.ofList text)))) place other ↔
      text = other := by
  constructor
  · rintro ⟨path, left, hDone, hBytes⟩
    cases hDone
    rw [bytes?_set, Option.some.injEq] at hBytes
    have hSame := congrArg String.toList (encode_injective hBytes)
    rwa [String.toList_ofList, String.toList_ofList] at hSame
  · rintro rfl
    exact ⟨_, _, rfl, bytes?_set⟩

section
variable {settings : Settings} {config : Config} {system : FileSystem} {input : String}
  {output : Option String} {target : Path} {place : Place} {text : String}

/-- A file gets what the enhancement makes of the text of the other one with unified line ends. -/
theorem enhanceFile_eq (hSettings : settings.check = .ok config)
    (hInput : system.readBytes (Path.ofString input).toString = .ok (Utf8.encode text))
    (hOutput : outputPath (Path.ofString input) output = .ok target)
    (hPlace : system.findTarget target.toString = .ok place) :
    enhanceFile settings system input output =
      (enhance config (unifyLineEnds text.toList)).map fun enhanced =>
        (target, system.set place (Utf8.encode (String.ofList enhanced))) := by
  simp only [enhanceFile, hOutput, FileSystem.readText, hInput, Utf8.decode_encode, hSettings,
    FileSystem.writeText, hPlace, ok_bind]
  cases enhance config (unifyLineEnds text.toList) <;> rfl

/-- Where the enhancement of a text goes through, so does that of a file with this text. The other
file gets the enhanced text with line feeds for its line ends, and nothing else changes. So it gets
the very text that the enhancement makes if and only if there is no carriage return in it. -/
theorem enhanced_file_has_line_feeds (hSettings : settings.check = .ok config)
    (hInput : system.readBytes (Path.ofString input).toString = .ok (Utf8.encode text))
    (hOutput : outputPath (Path.ofString input) output = .ok target)
    (hPlace : system.findTarget target.toString = .ok place) {enhanced : List Char}
    (hEnhance : enhance config text.toList = .ok enhanced) :
    enhanceFile settings system input output =
        .ok (target, system.set place (Utf8.encode (String.ofList (unifyLineEnds enhanced)))) ∧
      (Leaves (enhanceFile settings system input output) place enhanced ↔ '\r' ∉ enhanced) := by
  have hFile := enhanceFile_eq hSettings hInput hOutput hPlace
  rw [enhance_unifyLineEnds hEnhance] at hFile
  refine ⟨hFile, ?_⟩
  rw [hFile]
  exact leaves_set_iff.trans unifyLineEnds_eq_self_iff

end

/-- A file in the directory that paths start from. -/
def pageSystem (text : String) : FileSystem :=
  ⟨[⟨⟨.above 0, ["in.html".toList]⟩, Utf8.encode text⟩], []⟩

theorem readBytes_pageSystem (text : String) :
    (pageSystem text).readBytes (Path.ofString "in.html").toString = .ok (Utf8.encode text) := by
  have hIn : (Path.ofString "in.html").toString = "in.html" := by decide +kernel
  have hFrom : (pageSystem text).find "in.html" = .ok ⟨.above 0, ["in.html".toList]⟩ := by
    rw [FileSystem.find, routeOf_eq (by decide) (by decide) (by decide)]
    rfl
  rw [hIn, FileSystem.readBytes, hFrom]
  rfl

theorem findTarget_pageSystem (text : String) :
    (pageSystem text).findTarget (Path.ofString "out.html").toString =
      .ok ⟨.above 0, ["out.html".toList]⟩ := by
  have hOut : (Path.ofString "out.html").toString = "out.html" := by decide +kernel
  rw [hOut, FileSystem.findTarget, routeOf_eq (by decide) (by decide) (by decide)]
  rfl

/-- The other file gets the label of the button, and a line feed for its line end, so it does not
get the enhanced text. -/
theorem enhanced_file_has_button :
    enhance .standard "<button>\r\n</button>".toList =
        .ok "<button aria-label=\"button\">\r\n</button>".toList ∧
      enhanceFile {} (pageSystem "<button>\r\n</button>") "in.html" (some "out.html") =
        .ok (Path.ofString "out.html", (pageSystem "<button>\r\n</button>").set
          ⟨.above 0, ["out.html".toList]⟩
          (Utf8.encode "<button aria-label=\"button\">\n</button>")) ∧
      ¬Leaves (enhanceFile {} (pageSystem "<button>\r\n</button>") "in.html" (some "out.html"))
        ⟨.above 0, ["out.html".toList]⟩ "<button aria-label=\"button\">\r\n</button>".toList := by
  have hEnhance : enhance .standard "<button>\r\n</button>".toList =
      .ok "<button aria-label=\"button\">\r\n</button>".toList :=
    eq_ok_of_toOption (by decide +kernel)
  have hUnify : String.ofList
      (unifyLineEnds "<button aria-label=\"button\">\r\n</button>".toList) =
      "<button aria-label=\"button\">\n</button>" := by decide +kernel
  have hOutput : outputPath (Path.ofString "in.html") (some "out.html") =
      .ok (Path.ofString "out.html") := rfl
  have hReturn : '\r' ∈ "<button aria-label=\"button\">\r\n</button>".toList := by decide +kernel
  obtain ⟨hFile, hLeaves⟩ := enhanced_file_has_line_feeds Settings.check_default
    (readBytes_pageSystem _) hOutput (findTarget_pageSystem _) hEnhance
  rw [hUnify] at hFile
  exact ⟨hEnhance, hFile, fun hSame => hLeaves.1 hSame hReturn⟩

/-- The page needs no rewriting, and its lines end with line feeds alone in the other file. -/
theorem enhanced_page_loses_return :
    enhance .standard "<p>\r\n</p>".toList = .ok "<p>\r\n</p>".toList ∧
      enhanceFile {} (pageSystem "<p>\r\n</p>") "in.html" (some "out.html") =
        .ok (Path.ofString "out.html", (pageSystem "<p>\r\n</p>").set
          ⟨.above 0, ["out.html".toList]⟩ (Utf8.encode "<p>\n</p>")) ∧
      Utf8.encode "<p>\n</p>" ≠ Utf8.encode "<p>\r\n</p>" := by
  have hUnify : unifyLineEnds "<p>\r\n</p>".toList = "<p>\n</p>".toList := by decide +kernel
  have hUnified : enhance .standard "<p>\n</p>".toList = .ok "<p>\n</p>".toList :=
    eq_ok_of_toOption (by decide +kernel)
  refine ⟨eq_ok_of_toOption (by decide +kernel), ?_, by decide +kernel⟩
  rw [enhanceFile_eq Settings.check_default (readBytes_pageSystem _) rfl (findTarget_pageSystem _),
    hUnify, hUnified]
  rfl

end Files

end AccessibleMarkup
