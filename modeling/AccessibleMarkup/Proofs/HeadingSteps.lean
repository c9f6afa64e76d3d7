import AccessibleMarkup.Config
import AccessibleMarkup.Audit.Checks
import AccessibleMarkup.Proofs.Nesting

/-! The check of headings. It goes through the headings with the level of the one before, which it
keeps also behind an issue, so each issue is that of a heading and its neighbour. -/
namespace AccessibleMarkup

open AccessibleMarkup.Markup
open AccessibleMarkup.Text

section
variable {element : Element} {level : Nat}

/-- The level of a heading is the place of its name among the names of headings. -/
theorem exists_of_headingLevel? (hLevel : headingLevel? element = some level) :
    ∃ index : Fin 6, level = index + 1 ∧ element.name = headingNames[index] := by
  rw [headingLevel?, Option.map_eq_some_iff] at hLevel
  obtain ⟨index, hIndex, rfl⟩ := hLevel
  obtain ⟨hBound, hName, -⟩ := List.findIdx?_eq_some_iff_getElem.1 hIndex
  exact ⟨⟨index, hBound⟩, rfl, (of_decide_eq_true hName).symm⟩

/-- The level of a heading is the number in its name. -/
theorem name_of_headingLevel? (hLevel : headingLevel? element = some level) :
    element.name = "h" ++ toString level ∧ 1 ≤ level ∧ level ≤ 6 := by
  obtain ⟨index, rfl, hName⟩ := exists_of_headingLevel? hLevel
  have hAll : ∀ index : Fin 6, headingNames[index] = "h" ++ toString (index.val + 1) := by decide
  exact ⟨hName.trans (hAll index), by omega, by omega⟩

/-- The number in the name of a heading can always be read. -/
theorem readInteger?_of_headingLevel? (hLevel : headingLevel? element = some level) :
    readInteger? (element.name.toList.drop 1) = some (level : Int) := by
  obtain ⟨index, rfl, hName⟩ := exists_of_headingLevel? hLevel
  have hAll : ∀ index : Fin 6,
      readInteger? (headingNames[index].toList.drop 1) = some ((index.val + 1 : Nat) : Int) := by
    decide
  rw [hName, hAll]

/-- Headings are known by their names. -/
theorem isSome_headingLevel? :
    (headingLevel? element).isSome = decide (element.name ∈ headingNames) := by
  rw [headingLevel?, Option.isSome_map, List.findIdx?_isSome, Bool.eq_iff_iff]
  simp

end

/-- The headings are the elements with their names, in the order of the document. -/
theorem map_snd_headings (document : Document) :
    (headings document).map Prod.snd =
      document.nodes.filter fun node => node.element.name ∈ headingNames := by
  rw [headings, List.map_filterMap, ← List.filterMap_eq_filter]
  refine List.filterMap_congr fun node _ => ?_
  rw [Option.guard, ← isSome_headingLevel?]
  cases headingLevel? node.element <;> rfl

theorem headingLevel?_of_mem {document : Document} {heading : Nat × Node}
    (hMem : heading ∈ headings document) :
    headingLevel? heading.2.element = some heading.1 := by
  obtain ⟨node, -, hHeading⟩ := List.mem_filterMap.1 hMem
  obtain ⟨level, hLevel, rfl⟩ := Option.map_eq_some_iff.1 hHeading
  exact hLevel

def stepIssues (maxJump : Int) (pairs : List ((Nat × Node) × (Nat × Node))) : List Issue :=
  (pairs.filter fun pair => skipsLevel maxJump pair.1.1 pair.2.1).map fun pair =>
    headingIssue pair.1.1 pair.2.1 pair.2.2

section
variable {maxJump : Int}

/-- Issues that were found before stand in front of those that are still to be found. -/
theorem headingIssuesOnto_eq (found : List Issue) (before : Nat) (behind : List (Nat × Node)) :
    headingIssuesOnto maxJump found before behind =
      found.reverse ++ headingIssuesOnto maxJump [] before behind := by
  induction behind generalizing found before with
  | nil => simp [headingIssuesOnto]
  | cons heading rest ih =>
      simp only [headingIssuesOnto]
      split
      · rw [ih (_ :: found), ih [_]]
        simp
      · exact ih ..

/-- Behind a heading, the issues are those of neighbours. -/
theorem headingIssuesOnto_of_heading {heading : Nat × Node} {behind : List (Nat × Node)}
    (hLevels : ∀ other ∈ heading :: behind, 0 < other.1) :
    headingIssuesOnto maxJump [] heading.1 behind =
      stepIssues maxJump ((heading :: behind).zip behind) := by
  induction behind generalizing heading with
  | nil => rfl
  | cons next rest ih =>
      obtain ⟨hHeading, hNext⟩ := List.forall_mem_cons.1 hLevels
      rw [List.zip_cons_cons, stepIssues, List.filter_cons]
      simp only [headingIssuesOnto, hHeading, decide_true, Bool.true_and]
      split
      · rw [headingIssuesOnto_eq, ih hNext, List.map_cons]
        rfl
      · exact ih hNext

/-- The issues of a document are those of neighbouring headings. -/
theorem headingIssues_eq (document : Document) :
    headingIssues maxJump document =
      stepIssues maxJump ((headings document).zip (headings document).tail) := by
  have hLevels : ∀ heading ∈ headings document, 0 < heading.1 := fun heading hMem =>
    (name_of_headingLevel? (headingLevel?_of_mem hMem)).2.1
  rw [headingIssues]
  generalize headings document = found at hLevels
  cases found with
  | nil => rfl
  | cons heading rest =>
      have hNone : (decide (0 < 0) && skipsLevel maxJump 0 heading.1) = false := rfl
      rw [headingIssuesOnto, hNone, if_neg (by simp)]
      exact headingIssuesOnto_of_heading hLevels

theorem stepIssues_append (pairs more : List ((Nat × Node) × (Nat × Node))) :
    stepIssues maxJump (pairs ++ more) = stepIssues maxJump pairs ++ stepIssues maxJump more := by
  simp [stepIssues]

/-- Only levels and issues count. -/
theorem stepIssues_map {change : (Nat × Node) × (Nat × Node) → (Nat × Node) × (Nat × Node)}
    {pairs : List ((Nat × Node) × (Nat × Node))}
    (hSame : ∀ pair ∈ pairs, (change pair).1.1 = pair.1.1 ∧ (change pair).2.1 = pair.2.1 ∧
      headingIssue pair.1.1 pair.2.1 (change pair).2.2 =
        headingIssue pair.1.1 pair.2.1 pair.2.2) :
    stepIssues maxJump (pairs.map change) = stepIssues maxJump pairs := by
  induction pairs with
  | nil => rfl
  | cons pair pairs ih =>
      obtain ⟨⟨hBefore, hLevel, hIssue⟩, hPairs⟩ := List.forall_mem_cons.1 hSame
      have hRest := ih hPairs
      simp only [stepIssues, List.map_cons, List.filter_cons, hBefore, hLevel] at hRest ⊢
      split
      · rw [List.map_cons, List.map_cons, hBefore, hLevel, hIssue, hRest]
      · exact hRest

/-- With larger steps allowed, some of the issues are left, in the same order. -/
theorem stepIssues_sublist {other : Int} (hLe : maxJump ≤ other)
    (pairs : List ((Nat × Node) × (Nat × Node))) :
    (stepIssues other pairs).Sublist (stepIssues maxJump pairs) := by
  refine List.Sublist.map _ (List.monotone_filter_right pairs fun pair hSkips => ?_)
  simp only [skipsLevel, decide_eq_true_eq] at hSkips ⊢
  omega

end

/-- The neighbours in two lists, one behind the other: those in each of them, and the last of the
first and the first of the second. -/
theorem zip_tail_append {α : Type} (first second : List α) :
    (first ++ second).zip (first ++ second).tail =
      first.zip first.tail ++ first.getLast?.toList.zip second.head?.toList ++
        second.zip second.tail := by
  induction first with
  | nil => rfl
  | cons item first ih =>
      cases first with
      | nil => cases second <;> simp
      | cons next first => simpa using ih

/-- The headings of two documents in a row are those of the first and then those of the second. -/
theorem headings_append (first second : Document) :
    headings (first.append second) =
      (headings first).map (Prod.map id (·.extend second.events)) ++ headings second := by
  rw [headings, Document.nodes, Document.append, nodesOnto_append, List.filterMap_append,
    List.filterMap_map]
  congr 1
  rw [headings, List.map_filterMap]
  refine List.filterMap_congr fun node _ => ?_
  simp [Node.extend, Function.comp_def]

/-- The issue of a heading in the first of two documents is the one that it has there alone. -/
theorem headingIssue_extend {document : Document} (hNested : document.Nested) {heading : Nat × Node}
    (hMem : heading ∈ headings document) (before : Nat) (behind : List Event) :
    headingIssue before heading.1 (heading.2.extend behind) =
      headingIssue before heading.1 heading.2 := by
  obtain ⟨node, hNode, hHeading⟩ := List.mem_filterMap.1 hMem
  obtain ⟨level, -, rfl⟩ := Option.map_eq_some_iff.1 hHeading
  rw [headingIssue, headingIssue, issueOf, issueOf, hNested.describe_extend hNode]

/-- The issues of two documents, one behind the other: those of each of them, and at most one
between the last heading of the first and the first one of the second. -/
theorem headingIssues_append {maxJump : Int} {first : Document} (hNested : first.Nested)
    (second : Document) :
    headingIssues maxJump (first.append second) =
      headingIssues maxJump first ++
        stepIssues maxJump
          ((headings first).getLast?.toList.zip (headings second).head?.toList) ++
        headingIssues maxJump second := by
  rw [headingIssues_eq, headingIssues_eq, headingIssues_eq, headings_append, zip_tail_append,
    stepIssues_append, stepIssues_append]
  congr 2
  · rw [← List.map_tail, List.zip_map]
    refine stepIssues_map fun pair hPair => ⟨rfl, rfl, ?_⟩
    exact headingIssue_extend hNested (List.mem_of_mem_tail (List.of_mem_zip hPair).2) ..
  · rw [List.getLast?_map, Option.toList_map, List.zip_map_left]
    exact stepIssues_map fun pair _ => ⟨rfl, rfl, rfl⟩

/-- The level that the issue suggests lies between the two, and may stand behind the first. -/
theorem exists_suggestion {config : Config} {before level : Nat}
    (hSkips : (before : Int) + config.maxHeadingJump < level) (node : Node) :
    ∃ suggested : Nat, before < suggested ∧ suggested < level ∧
      (suggested : Int) ≤ before + config.maxHeadingJump ∧
      (headingIssue before level node).suggestion =
        some ("Use h" ++ toString suggested ++ " instead of h" ++ toString level) := by
  have hJump := config.jump_pos
  exact ⟨before + 1, by omega, by omega, by push_cast; omega, rfl⟩

/-- The check of headings finds the headings in the order of the document, each with the level that
its name writes, and reports every heading that lies more than the configured step below the one
before it, with both levels and a level between them that may stand there; it reports nothing else.
With a larger step some of these issues are left, in the same order. Two documents, one behind the
other, have the issues of each of them and at most one between them; all elements of the first have
to be closed in it, as in every document that was read. -/
theorem heading_issues_of_neighbours (config : Config) :
    (∀ document : Document,
      (headings document).map Prod.snd =
          (document.nodes.filter fun node => node.element.name ∈ headingNames) ∧
        (∀ heading ∈ headings document,
          readInteger? (heading.2.element.name.toList.drop 1) = some (heading.1 : Int) ∧
          heading.2.element.name = "h" ++ toString heading.1 ∧ 1 ≤ heading.1 ∧ heading.1 ≤ 6) ∧
        headingIssues config.maxHeadingJump document =
          (((headings document).zip (headings document).tail).filter fun pair =>
            (pair.1.1 : Int) + config.maxHeadingJump < pair.2.1).map fun pair =>
              headingIssue pair.1.1 pair.2.1 pair.2.2) ∧
    (∀ (before level : Nat) (node : Node), (before : Int) + config.maxHeadingJump < level →
      (headingIssue before level node).message =
          "Skipped heading level from h" ++ toString before ++ " to h" ++ toString level ∧
        ∃ suggested : Nat, before < suggested ∧ suggested < level ∧
          (suggested : Int) ≤ before + config.maxHeadingJump ∧
          (headingIssue before level node).suggestion =
            some ("Use h" ++ toString suggested ++ " instead of h" ++ toString level)) ∧
    (∀ (other : Config) (document : Document), config.maxHeadingJump ≤ other.maxHeadingJump →
      (headingIssues other.maxHeadingJump document).Sublist
        (headingIssues config.maxHeadingJump document)) ∧
    (∀ (text : List Char) (document : Document), Document.read text = .ok document →
      document.Nested) ∧
    ∀ first second : Document, first.Nested →
      ∃ between : List Issue, between.length ≤ 1 ∧
        between = stepIssues config.maxHeadingJump
          ((headings first).getLast?.toList.zip (headings second).head?.toList) ∧
        headingIssues config.maxHeadingJump (first.append second) =
          headingIssues config.maxHeadingJump first ++ between ++
            headingIssues config.maxHeadingJump second := by
  refine ⟨fun document => ⟨map_snd_headings document, fun heading hMem => ?_,
      headingIssues_eq document⟩, fun before level node hSkips => ⟨rfl, ?_⟩,
    fun other document hLe => ?_, fun _ _ => Document.nested_of_read,
    fun first second hNested => ⟨_, ?_, rfl, headingIssues_append hNested second⟩⟩
  · have hLevel := headingLevel?_of_mem hMem
    exact ⟨readInteger?_of_headingLevel? hLevel, name_of_headingLevel? hLevel⟩
  · exact exists_suggestion hSkips node
  · rw [headingIssues_eq, headingIssues_eq]
    exact stepIssues_sublist hLe _
  · rw [stepIssues, List.length_map]
    refine Nat.le_trans (List.length_filter_le ..) ?_
    rw [List.length_zip]
    exact Nat.le_trans (Nat.min_le_left ..) Option.length_toList_le

/-- Between two parts without issues there is one. -/
theorem heading_issue_between_parts :
    ∃ first second : Document, Document.read "<h1></h1>".toList = .ok first ∧
      headingIssues 1 first = [] ∧ headingIssues 1 second = [] ∧
      headingIssues 1 (first.append second) =
        [headingIssue 1 3 ⟨⟨"h3", [], none⟩, [.closed "h3"]⟩] := by
  have hRead : Document.read "<h1></h1>".toList =
      .ok ⟨[.opened ⟨"h1", [], some ⟨1, 0⟩⟩, .closed "h1"]⟩ := by decide +kernel
  refine ⟨_, ⟨[.opened ⟨"h3", [], none⟩, .closed "h3"]⟩, hRead, rfl, rfl, ?_⟩
  obtain ⟨-, -, -, hNested, hAppend⟩ := heading_issues_of_neighbours Config.standard
  obtain ⟨between, -, hBetween, hIssues⟩ := hAppend _ ⟨[.opened ⟨"h3", [], none⟩, .closed "h3"]⟩
    (hNested _ _ hRead)
  exact hIssues.trans (by rw [hBetween]; rfl)

end AccessibleMarkup
