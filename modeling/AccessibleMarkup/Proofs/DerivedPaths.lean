import AccessibleMarkup.Files.Enhance
import AccessibleMarkup.Proofs.Passes
import Mathlib.Data.List.TakeWhile

/-! The path that an enhanced text goes to when no other is asked for. It differs from the path of
the file that is read, whatever this is, and it leads to another place: both paths lead to the same
directory, and from there to different names. -/
namespace AccessibleMarkup.Files

namespace Path

/-- A name has no suffix, or ends with a point and what stands behind its last one. -/
theorem suffix_eq (name : List Char) :
    suffix name = [] ∨
      ∃ front rest, name = front ++ '.' :: rest ∧ '.' ∉ rest ∧ suffix name = '.' :: rest := by
  simp only [suffix]
  split
  · exact .inl rfl
  · rename_i hSome
    have hJoin := List.takeWhile_append_dropWhile (p := (· ≠ '.')) (l := name.reverse)
    have hPoint := List.head?_dropWhile_not (· ≠ '.') name.reverse
    generalize hBehind : name.reverse.takeWhile (· ≠ '.') = behind at hSome hJoin
    generalize name.reverse.dropWhile (· ≠ '.') = after at hJoin hPoint
    have hLength := congrArg List.length hJoin
    rw [List.length_append, List.length_reverse] at hLength
    cases after with
    | nil =>
        simp at hSome hLength
        omega
    | cons c tail =>
        obtain rfl : c = '.' := by simpa using hPoint
        refine .inr ⟨tail.reverse, behind.reverse, ?_, fun hMem => ?_, rfl⟩
        · rw [← List.reverse_reverse name, ← hJoin]
          simp
        · rw [List.mem_reverse, ← hBehind] at hMem
          have hOther := List.mem_takeWhile_imp hMem
          simp at hOther

/-- A name with another suffix begins as it did. -/
theorem exists_renameSuffix (name ending : List Char) :
    ∃ front, name = front ++ suffix name ∧ renameSuffix name ending = front ++ ending := by
  rcases suffix_eq name with hNone | ⟨front, rest, hName, -, hSome⟩
  · exact ⟨name, by rw [hNone, List.append_nil], by simp [renameSuffix, hNone]⟩
  · refine ⟨front, by rw [hSome]; exact hName, ?_⟩
    rw [renameSuffix, hSome]
    simp [hName]

/-- No name has a suffix of two points. -/
theorem renameSuffix_ne (name : List Char) : renameSuffix name enhancedSuffix ≠ name := by
  intro hSame
  obtain ⟨front, hName, hRename⟩ := exists_renameSuffix name enhancedSuffix
  have hSuffix : enhancedSuffix = suffix name :=
    List.append_cancel_left (hRename.symm.trans (hSame.trans hName))
  rcases suffix_eq name with hNone | ⟨-, rest, -, hRest, hSome⟩
  · rw [hNone] at hSuffix
    exact absurd hSuffix (by decide)
  · rw [hSome] at hSuffix
    have hMem : '.' ∈ enhancedSuffix.tail := by decide
    rw [hSuffix] at hMem
    exact hRest hMem

/-- A path with another suffix keeps all names but the last one. -/
theorem exists_of_withSuffix? {path target : Path} {ending : List Char}
    (hTarget : path.withSuffix? ending = some target) :
    ∃ front name, path.names = front ++ [name] ∧
      target = ⟨path.root, front ++ [renameSuffix name ending]⟩ := by
  rw [withSuffix?] at hTarget
  cases hLast : path.names.getLast? with
  | none =>
      rw [hLast] at hTarget
      cases hTarget
  | some name =>
      obtain ⟨front, hNames⟩ := List.getLast?_eq_some_iff.1 hLast
      rw [hLast, hNames, List.dropLast_concat] at hTarget
      exact ⟨front, name, hNames, (Option.some.inj hTarget).symm⟩

/-- The path of the enhanced text is another one. -/
theorem ne_of_withSuffix? {path target : Path}
    (hTarget : path.withSuffix? enhancedSuffix = some target) : target ≠ path := by
  rintro rfl
  obtain ⟨front, name, hNames, hTarget⟩ := exists_of_withSuffix? hTarget
  have hSame := congrArg Path.names hTarget
  rw [hNames] at hSame
  have hLast := List.append_cancel_left hSame
  exact renameSuffix_ne name (List.cons.inj hLast).1.symm

example : (Path.ofString "a/b.aria.html").withSuffix? enhancedSuffix =
    some (Path.ofString "a/b.aria.aria.html") := by decide +kernel

end Path

/-- Where no output is asked for, the enhanced text goes to the path with the other suffix. -/
theorem withSuffix?_of_outputPath {input target : Path}
    (hTarget : outputPath input none = .ok target) :
    input.withSuffix? enhancedSuffix = some target := by
  simp only [outputPath] at hTarget
  cases hSuffix : input.withSuffix? enhancedSuffix with
  | none =>
      rw [hSuffix] at hTarget
      cases hTarget
  | some path =>
      rw [hSuffix] at hTarget
      rw [Except.ok.inj hTarget]

/-- Splitting a path at its slashes is the splitting that lists have. -/
theorem piecesOnto_eq (done : List (List Char)) (piece text : List Char) :
    piecesOnto done piece text = done.reverse ++ text.splitOnPPrepend (· == '/') piece := by
  induction text generalizing done piece with
  | nil => simp [piecesOnto]
  | cons c rest ih =>
      rw [piecesOnto, List.splitOnPPrepend_cons_eq_if]
      by_cases hSlash : c = '/'
      · simp [hSlash, ih]
      · simp [hSlash, ih]

/-- The pieces of a text are what its slashes leave of it. -/
theorem pieces_eq (text : List Char) : pieces text = text.splitOn '/' :=
  piecesOnto_eq [] [] text

/-- The pieces between the slashes of a path hold none. -/
theorem slash_not_mem_piecesOnto {done : List (List Char)} {piece text : List Char}
    (hDone : ∀ name ∈ done, '/' ∉ name) (hPiece : '/' ∉ piece) :
    ∀ name ∈ piecesOnto done piece text, '/' ∉ name := by
  have hMore : ∀ name ∈ piece.reverse :: done, '/' ∉ name :=
    List.forall_mem_cons.2 ⟨fun hMem => hPiece (List.mem_reverse.1 hMem), hDone⟩
  induction text generalizing done piece with
  | nil =>
      intro name hMem
      rw [piecesOnto] at hMem
      exact hMore name (List.mem_reverse.1 hMem)
  | cons c rest ih =>
      rw [piecesOnto]
      split
      · exact ih hMore List.not_mem_nil
          (List.forall_mem_cons.2 ⟨List.not_mem_nil, hMore⟩)
      · rename_i hC
        have hNext : '/' ∉ c :: piece := fun hMem =>
          (List.mem_cons.1 hMem).elim (fun hSlash => hC hSlash.symm) hPiece
        exact ih hDone hNext
          (List.forall_mem_cons.2 ⟨fun hMem => hNext (List.mem_reverse.1 hMem), hDone⟩)

structure IsName (name : List Char) : Prop where
  ne_nil : name ≠ []
  ne_point : name ≠ ['.']
  noSlash : '/' ∉ name

/-- The names of a path that is read. -/
theorem isName_of_mem_ofString {text : String} :
    ∀ name ∈ (Path.ofString text).names, IsName name := by
  intro name hMem
  obtain ⟨hPiece, hKept⟩ := List.mem_filter.1 hMem
  have hParts : name ≠ [] ∧ name ≠ ['.'] := by simpa using hKept
  exact ⟨hParts.1, hParts.2, slash_not_mem_piecesOnto (by simp) List.not_mem_nil name hPiece⟩

/-- Where the routes of a path start. -/
def Root.base : Root → Base
  | .here => .above 0
  | _ => .root

/-- A text without empty pieces has no slash at its ends. -/
theorem no_slash_at_ends {text : List Char} (hPieces : [] ∉ pieces text) :
    text ≠ [] ∧ text.head? ≠ some '/' ∧ text.getLast? ≠ some '/' := by
  rw [pieces_eq] at hPieces
  refine ⟨?_, fun hFirst => ?_, fun hLast => ?_⟩
  · rintro rfl
    simp at hPieces
  · obtain ⟨rest, rfl⟩ := List.head?_eq_some_iff.1 hFirst
    have hSplit := @List.splitOn_append_cons_self _ _ _ '/' [] rest
    rw [List.nil_append] at hSplit
    simp [hSplit] at hPieces
  · obtain ⟨front, rfl⟩ := List.getLast?_eq_some_iff.1 hLast
    simp [List.splitOn_append_cons_self] at hPieces

/-- The route of a path with names goes from one name to the next. -/
theorem route_toString {path : Path} (hSome : path.names ≠ [])
    (hNames : ∀ name ∈ path.names, IsName name) :
    Route.ofString path.toString = ⟨path.root.base, path.names.map Step.ofPiece, false⟩ := by
  obtain ⟨root, names⟩ := path
  have hText : (Path.toString ⟨root, names⟩).toList = root.text ++ ['/'].intercalate names := by
    rw [Path.toString, if_neg (fun hNone => hSome hNone.2), String.toList_ofList]
  have hPieces : pieces (['/'].intercalate names) = names := by
    rw [pieces_eq]
    exact List.splitOn_intercalate '/' (fun name hMem => (hNames name hMem).noSlash) hSome
  have hKept : names.filter (!·.isEmpty) = names :=
    List.filter_eq_self.2 fun name hMem => by simpa using (hNames name hMem).ne_nil
  generalize ['/'].intercalate names = joined at hText hPieces
  have hNone : [] ∉ pieces joined := by
    rw [hPieces]
    exact fun hMem => (hNames [] hMem).ne_nil rfl
  obtain ⟨hJoined, hFirst, hLast⟩ := no_slash_at_ends hNone
  have hEnd : ('/' :: joined).getLast? = joined.getLast? := by
    obtain ⟨c, rest, rfl⟩ := List.exists_cons_of_ne_nil hJoined
    exact List.getLast?_cons_cons
  have hSlash : ∀ text, pieces ('/' :: text) = [] :: pieces text := fun text => by
    rw [pieces_eq, pieces_eq]
    exact @List.splitOn_append_cons_self _ _ _ '/' [] text
  rw [Route.ofString, hText]
  cases root with
  | here => simp [Root.text, Root.base, hPieces, hKept, hFirst, hLast]
  | single => simp [Root.text, Root.base, hSlash, hPieces, hKept, hEnd, hLast]
  | double => simp [Root.text, Root.base, hSlash, hPieces, hKept, hEnd, hLast]

namespace Place

/-- Two names in a directory lead to two places. -/
theorem child_injective (directory : Place) : Function.Injective directory.child :=
  fun name other hSame => by
    have hNames : directory.names ++ [name] = directory.names ++ [other] :=
      congrArg Place.names hSame
    exact (List.cons.inj (List.append_cancel_left hNames)).1

/-- Nothing in a directory is the directory above it. -/
theorem child_ne_parent (directory : Place) (name : List Char) :
    directory.child name ≠ directory.parent := by
  intro hSame
  have hLength : directory.names.length + 1 = directory.parent.names.length := by
    rw [← hSame, child, List.length_append]
    rfl
  obtain ⟨base, names⟩ := directory
  cases names with
  | nil => cases base <;> simp [parent] at hLength
  | cons first rest =>
      simp [parent] at hLength
      omega

end Place

/-- A name with the suffix of an enhanced text is a name again, and leads down. -/
theorem IsName.renameSuffix {name : List Char} (hName : IsName name) :
    IsName (Path.renameSuffix name enhancedSuffix) ∧
      Step.ofPiece (Path.renameSuffix name enhancedSuffix) =
        .down (Path.renameSuffix name enhancedSuffix) := by
  obtain ⟨front, hFront, hRename⟩ := Path.exists_renameSuffix name enhancedSuffix
  have hLength : 2 < (front ++ enhancedSuffix).length := by
    rw [List.length_append]
    exact Nat.lt_of_lt_of_le (by decide) (Nat.le_add_left enhancedSuffix.length _)
  have hNot : ∀ short : List Char, short.length ≤ 2 → front ++ enhancedSuffix ≠ short := by
    rintro short hShort rfl
    omega
  rw [hRename]
  refine ⟨⟨hNot [] (by decide), hNot ['.'] (by decide), fun hMem => ?_⟩, ?_⟩
  · rcases List.mem_append.1 hMem with hOld | hNew
    · exact hName.noSlash (by rw [hFront]; exact List.mem_append_left _ hOld)
    · exact absurd hNew (by decide)
  · rw [Step.ofPiece, if_neg (hNot _ (by decide)), if_neg (hNot _ (by decide))]

section
variable {system : FileSystem} {written : String} {place directory source : Place} {step : Step}

/-- A path that can be followed at all is followed along the route that it writes. -/
theorem routeOf_eq_ok {route : Route} (hRoute : FileSystem.routeOf written = .ok route) :
    route = Route.ofString written := by
  unfold FileSystem.routeOf at hRoute
  split at hRoute
  · cases hRoute
  split at hRoute
  · cases hRoute
  split at hRoute
  · cases hRoute
  · exact (Except.ok.inj hRoute).symm

theorem enter_eq_ok (hEnter : system.enter directory step = .ok place) :
    place = directory.step step := by
  unfold FileSystem.enter at hEnter
  split at hEnter
  · cases hEnter
  · cases hEnter
  · split at hEnter
    · cases hEnter
    · exact (Except.ok.inj hEnter).symm
  · exact (Except.ok.inj hEnter).symm

/-- The last step is taken from where the others lead. -/
theorem follow_concat_eq_ok {start : Place} {steps : List Step}
    (hFollow : system.follow start (steps ++ [step]) = .ok place) :
    ∃ directory, system.follow start steps = .ok directory ∧ place = directory.step step := by
  rw [FileSystem.follow, List.foldlM_append, bind_eq_ok_iff] at hFollow
  obtain ⟨directory, hSteps, hLast⟩ := hFollow
  rw [List.foldlM_cons, bind_eq_ok_iff] at hLast
  obtain ⟨next, hEnter, hNext⟩ := hLast
  cases hNext
  exact ⟨directory, hSteps, enter_eq_ok hEnter⟩

/-- Something is found at the last step of its path, in the directory that the steps before it lead
to. -/
theorem find_eq_ok {steps : List Step} (hSteps : (Route.ofString written).steps = steps ++ [step])
    (hOpen : (Route.ofString written).closed = false) (hFind : system.find written = .ok place) :
    ∃ directory, system.follow (Route.ofString written).start steps = .ok directory ∧
      place = directory.step step := by
  rw [FileSystem.find, bind_eq_ok_iff] at hFind
  obtain ⟨route, hRoute, hFollow⟩ := hFind
  obtain rfl := routeOf_eq_ok hRoute
  rw [Route.stepsInto, hOpen, hSteps, if_neg Bool.false_ne_true, List.append_nil] at hFollow
  exact follow_concat_eq_ok hFollow

/-- A file that need not be there has its place at the last step of its path, in the directory that
the steps before it lead to. -/
theorem findTarget_eq_ok {steps : List Step}
    (hSteps : (Route.ofString written).steps = steps ++ [step])
    (hFind : system.findTarget written = .ok place) :
    ∃ directory, system.follow (Route.ofString written).start steps = .ok directory ∧
      place = directory.step step := by
  rw [FileSystem.findTarget, bind_eq_ok_iff] at hFind
  obtain ⟨route, hRoute, hFind⟩ := hFind
  obtain rfl := routeOf_eq_ok hRoute
  rw [hSteps, List.dropLast_concat, bind_eq_ok_iff] at hFind
  obtain ⟨directory, hDirectory, hFind⟩ := hFind
  refine ⟨directory, hDirectory, ?_⟩
  split at hFind
  · cases hFind
  · cases hFind
  split at hFind
  · cases hFind
  rw [bind_eq_ok_iff, List.getLast?_concat] at hFind
  obtain ⟨target, hFollow, hFind⟩ := hFind
  obtain ⟨start, hStart, hTarget⟩ := @follow_concat_eq_ok system target step directory [] hFollow
  cases hStart
  split at hFind
  · cases hFind
  · cases hFind
    exact hTarget

end

/-- The place of the enhanced text is not the place of the file that is read. -/
theorem place_ne_of_withSuffix? {system : FileSystem} {path target : Path} {source place : Place}
    (hNames : ∀ name ∈ path.names, IsName name)
    (hTarget : path.withSuffix? enhancedSuffix = some target)
    (hSource : system.find path.toString = .ok source)
    (hPlace : system.findTarget target.toString = .ok place) : place ≠ source := by
  obtain ⟨front, name, hPath, rfl⟩ := Path.exists_of_withSuffix? hTarget
  have hFront : ∀ other ∈ front, IsName other := fun other hMem =>
    hNames other (by rw [hPath]; exact List.mem_append_left _ hMem)
  have hName : IsName name := hNames name (by simp [hPath])
  obtain ⟨hRenamed, hDown⟩ := hName.renameSuffix
  have hFrom := @route_toString path (by simp [hPath]) hNames
  have hTo := @route_toString ⟨path.root, front ++ [Path.renameSuffix name enhancedSuffix]⟩
    (by simp) (by
      intro other hMem
      rcases List.mem_append.1 hMem with hOld | hNew
      · exact hFront other hOld
      · rwa [List.mem_singleton.1 hNew])
  obtain ⟨directory, hDirectory, rfl⟩ := @find_eq_ok system _ _ (Step.ofPiece name)
    (front.map Step.ofPiece) (by rw [hFrom, hPath]; simp) (by rw [hFrom]) hSource
  obtain ⟨other, hOther, rfl⟩ := @findTarget_eq_ok system _ _
    (Step.ofPiece (Path.renameSuffix name enhancedSuffix))
    (front.map Step.ofPiece) (by rw [hTo]; simp) hPlace
  obtain rfl : directory = other := by
    rw [hFrom] at hDirectory
    rw [hTo] at hOther
    exact Except.ok.inj (hDirectory.symm.trans hOther)
  rw [hDown, Step.ofPiece, if_neg hName.ne_point]
  split
  · exact Place.child_ne_parent directory _
  · exact fun hSame => Path.renameSuffix_ne name (Place.child_injective directory hSame)

end AccessibleMarkup.Files
