import AccessibleMarkup.Proofs.Passes

/-! The tags of the elements of a document, as they are found in the text again. Every element has
its tag where the tokeniser read one, and the attributes that the text of this tag holds are the
attributes of the element. -/
namespace AccessibleMarkup

open AccessibleMarkup.Markup
open AccessibleMarkup.Text

namespace Markup

/-- The opening tags among tokens that stand behind `offset` characters, as they were read. -/
def placedTags (offset : Nat) : List Token → List PlacedTag
  | [] => []
  | token :: rest =>
    match token.content with
    | .openTag _ => ⟨offset, token.source⟩ :: placedTags (offset + token.source.length) rest
    | _ => placedTags (offset + token.source.length) rest

/-- The places that openings are at are counted off from the tokens. -/
theorem map_placed_openings {tokens : List Token}
    (hSource : ∀ token ∈ tokens, ∀ tag, token.content = .openTag tag → token.source = tag.source)
    (before : List Char) :
    (openings before tokens).map Opening.placed = placedTags before.length tokens := by
  induction tokens generalizing before with
  | nil => rfl
  | cons token rest ih =>
      have hRest := ih (fun other hMem => hSource other (List.mem_cons_of_mem _ hMem))
        (before ++ token.source)
      rw [List.length_append] at hRest
      cases hContent : token.content with
      | openTag tag =>
          have hTag := hSource token (List.mem_cons_self ..) tag hContent
          simpa [openings, placedTags, hContent, Opening.placed, ← hTag] using hRest
      | _ => simpa [openings, placedTags, hContent] using hRest

theorem slice_append (front middle rest : List Char) :
    slice (front ++ middle ++ rest) front.length (front.length + middle.length) = middle := by
  rw [slice, List.append_assoc, List.drop_left, Nat.add_sub_cancel_left, List.take_left]

/-- A tag is the slice of the text between its two offsets. -/
theorem Opening.StandsIn.slice_placed {text : List Char} {opening : Opening}
    (hStands : opening.StandsIn text) :
    slice text opening.placed.start opening.placed.stop = opening.placed.source := by
  obtain ⟨behind, hText, -⟩ := hStands
  rw [hText]
  exact slice_append _ _ _

/-- The search for a tag finds the name that the tokeniser read, and ends where the tokeniser ended
the tag. -/
theorem Opening.StandsIn.search_placed {text : List Char} {opening : Opening}
    (hStands : opening.StandsIn text) :
    readOpenTag (text.drop (opening.placed.start + 1)) =
        .complete opening.tag (text.drop opening.placed.stop) ∧
      searchOpenTag? (text.drop (opening.placed.start + 1)) =
        some (opening.tag.name, text.drop opening.placed.stop) := by
  obtain ⟨behind, hText, hRead⟩ := hStands
  have hFront : text.drop (opening.placed.start + 1) = opening.tag.sourceTail ++ behind := by
    rw [hText, Opening.placed, ← List.drop_drop, List.append_assoc, List.drop_left]
    rfl
  have hBehind : text.drop opening.placed.stop = behind := by
    have hLength : opening.placed.stop = (opening.before ++ opening.tag.source).length := by
      rw [List.length_append]
      rfl
    rw [hText, hLength, List.drop_left]
  rw [hFront, hBehind]
  exact ⟨hRead, searchOpenTag?_of_complete hRead⟩

end Markup

/-- In a text that can be read the tag of every element is located, and it is the text that the
tokeniser took for this tag; no tag reaches into the next one. The search through all ways to read a
tag finds the same name and ends at the same place. So neither a rule that looks for elements nor
the cleanup can fail on such a text. -/
theorem elements_located {text : List Char} {document : Document}
    (hRead : Document.read text = .ok document) :
    document.elements.map (locate (Buffer.ofText text)) =
        (placedTags 0 (scan text).tokens).map .ok ∧
      (scan text).tokens.flatMap Token.source ++ (scan text).dropped = text ∧
      (∀ placed ∈ placedTags 0 (scan text).tokens,
        slice text placed.start placed.stop = placed.source ∧
          ∃ tag, readOpenTag (text.drop (placed.start + 1)) =
              .complete tag (text.drop placed.stop) ∧
            searchOpenTag? (text.drop (placed.start + 1)) =
              some (tag.name, text.drop placed.stop)) ∧
      (placedTags 0 (scan text).tokens).Pairwise
        (fun one other => one.start < other.start ∧ one.stop ≤ other.start) ∧
      (∀ rule : Rule, rule.finder = .elements →
        ∃ labelled, (rule.apply text).outcome = .ok labelled) ∧
      ∃ cleaned, (Aria.clean text).outcome = .ok cleaned := by
  obtain ⟨hSource, hStand, hElements, hJoin⟩ := readable_of_read hRead
  have hPlaced : placedTags 0 (scan text).tokens =
      (openings [] (scan text).tokens).map Opening.placed :=
    (map_placed_openings hSource []).symm
  refine ⟨?_, hJoin, ?_, ?_, ?_, ?_⟩
  · rw [hElements, hPlaced, List.map_map, List.map_map]
    exact List.map_congr_left fun opening hMem => locate_opening (hStand opening hMem)
  · intro placed hMem
    rw [hPlaced] at hMem
    obtain ⟨opening, hOpening, rfl⟩ := List.mem_map.1 hMem
    exact ⟨(hStand opening hOpening).slice_placed, opening.tag,
      (hStand opening hOpening).search_placed⟩
  · rw [hPlaced, List.pairwise_map]
    exact pairwise_placed_openings hSource []
  · intro rule hFinder
    exact ⟨_, Rule.apply_of_read hFinder hRead⟩
  · exact ⟨_, Aria.clean_of_read hRead⟩

/-- A quoted `>` does not end the tag of the paragraph. -/
theorem element_located_past_quoted_end :
    (Document.elements ⟨[.string .text ['\n'],
        .opened ⟨"p", [⟨"a", "&"⟩], some ⟨2, 0⟩⟩, .closed "p"]⟩).map
        (locate (Buffer.ofText "\n<p A='>' a=&amp; >".toList)) =
      [.ok ⟨1, "<p A='>' a=&amp; >".toList⟩] := by
  have hPlaced : placedTags 0 (scan "\n<p A='>' a=&amp; >".toList).tokens =
      [⟨1, "<p A='>' a=&amp; >".toList⟩] := by decide +kernel
  rw [(elements_located (by decide +kernel)).1, hPlaced]
  rfl

namespace Markup

/-- Attributes as a dictionary: a name stands where it first occurs and has the value that it last
occurs with. -/
def dictionary (occurrences : List Attribute) : List Attribute :=
  (occurrences.map (·.name)).eraseDups.map fun name =>
    ⟨name, ((occurrences.reverse.find? fun known => known.name = name).map (·.value)).getD ""⟩

/-- A dictionary has the names that occur, and no others. -/
theorem any_name_dictionary {occurrences : List Attribute} {name : String} :
    (dictionary occurrences).any (fun known => known.name = name) =
      occurrences.any fun known => known.name = name := by
  rw [Bool.eq_iff_iff]
  simp [dictionary, List.mem_eraseDups]

/-- Adding attributes one after the other makes the dictionary of all of them. -/
theorem foldl_addAttribute (occurrences : List Attribute) :
    occurrences.foldl addAttribute [] = dictionary occurrences := by
  induction occurrences using List.reverseRecOn with
  | nil => rfl
  | append_singleton occurrences added ih =>
      rw [List.foldl_append, List.foldl_cons, List.foldl_nil, ih, addAttribute,
        any_name_dictionary]
      split
      · rename_i hKnown
        obtain ⟨known, hMem, hName⟩ := List.any_eq_true.1 hKnown
        have hOld : [added.name].removeAll (occurrences.map (·.name)) = [] := by
          have hNameMem : added.name ∈ occurrences.map (·.name) :=
            List.mem_map.2 ⟨known, hMem, of_decide_eq_true hName⟩
          simpa [List.removeAll] using hNameMem
        simp only [dictionary, List.map_append, List.map_cons, List.map_nil,
          List.eraseDups_append, hOld, List.eraseDups_nil, List.append_nil, List.map_map]
        refine List.map_congr_left fun name _ => ?_
        by_cases hSame : name = added.name
        · simp [hSame]
        · simp [hSame, Ne.symm hSame]
      · rename_i hNew
        have hOld : [added.name].removeAll (occurrences.map (·.name)) = [added.name] := by
          simpa [List.removeAll] using hNew
        simp only [dictionary, List.map_append, List.map_cons, List.map_nil,
          List.eraseDups_append, hOld]
        have hKept : ∀ name ∈ (occurrences.map (·.name)).eraseDups, added.name ≠ name := by
          rintro name hMem rfl
          rw [List.mem_eraseDups] at hMem
          obtain ⟨known, hKnown, hName⟩ := List.mem_map.1 hMem
          exact hNew (List.any_eq_true.2 ⟨known, hKnown, decide_eq_true hName⟩)
        congr 1
        · refine List.map_congr_left fun name hMem => ?_
          simp [hKept name hMem]
        · simp [List.eraseDups_cons]

/-- An attribute of a tag as a document holds it: its name in lower case, and its value decoded. An
attribute without a value has the empty one. -/
def PlacedAttribute.read (placed : PlacedAttribute) : Attribute :=
  { name := String.ofList (lowercase placed.name)
    value := String.ofList (decodeValue (placed.value?.getD [])) }

/-- Where an attribute stands does not matter to how it is read. -/
theorem map_read_placedFrom (offset : Nat) (attributes : List WrittenAttribute) :
    (placedFrom offset attributes).map PlacedAttribute.read =
      attributes.map WrittenAttribute.read := by
  induction attributes generalizing offset with
  | nil => rfl
  | cons written rest ih => simp [placedFrom, ih, PlacedAttribute.read, WrittenAttribute.read]

end Markup

/-- The attributes of an element are those that its located tag holds, read one after the other. So
the tag has an attribute of some name exactly where the element has it, and every invalid ARIA
attribute of the element is among the attributes of the tag that the cleanup cuts out. -/
theorem attributes_of_located_tag {text : List Char} {document : Document}
    (hRead : Document.read text = .ok document) {element : Element}
    (hMem : element ∈ document.elements) :
    ∃ placed, locate (Buffer.ofText text) element = .ok placed ∧
      element.attributes = dictionary ((attributesOf placed.source).map PlacedAttribute.read) ∧
      (∀ name, hasAttribute placed.source name = element.has (String.ofList (lowercase name))) ∧
      ∀ known ∈ Aria.invalidAttributes element,
        ∃ cut ∈ Aria.namedAttributes placed.source
            ((Aria.invalidAttributes element).map (·.name)),
          String.ofList (lowercase cut.name) = known.name := by
  obtain ⟨-, hStand, hElements, -⟩ := readable_of_read hRead
  rw [hElements] at hMem
  obtain ⟨opening, hOpening, rfl⟩ := List.mem_map.1 hMem
  have hLocate := locate_opening (hStand opening hOpening)
  obtain ⟨behind, -, hTag⟩ := hStand opening hOpening
  have hAttributes := attributesOf_source (readOpenTag_eq_complete_iff.1 hTag).2
  have hReadTag : (attributesOf opening.placed.source).map PlacedAttribute.read =
      opening.tag.attributes.map WrittenAttribute.read := by
    rw [← map_read_placedFrom ('<' :: opening.tag.name ++ opening.tag.gap).length, ← hAttributes]
    rfl
  have hDictionary : opening.element.attributes =
      dictionary ((attributesOf opening.placed.source).map PlacedAttribute.read) := by
    rw [← foldl_addAttribute, hReadTag]
    rfl
  have hHas (name : String) : opening.element.has name =
      (attributesOf opening.placed.source).any fun placed =>
        String.ofList (lowercase placed.name) = name := by
    rw [Element.has, hDictionary, any_name_dictionary, List.any_map]
    rfl
  refine ⟨opening.placed, hLocate, hDictionary, ?_, ?_⟩
  · intro name
    rw [hHas, hasAttribute]
    congr 1
    funext placed
    exact decide_eq_decide.2 String.ofList_inj.symm
  · intro known hKnown
    have hName : opening.element.has known.name = true := by
      simp only [Element.has, List.any_eq_true, decide_eq_true_eq]
      exact ⟨known, (List.mem_filter.1 hKnown).1, rfl⟩
    rw [hHas] at hName
    obtain ⟨cut, hCut, hCutName⟩ := List.any_eq_true.1 hName
    simp only [decide_eq_true_eq] at hCutName
    refine ⟨cut, List.mem_filter.2 ⟨hCut, ?_⟩, hCutName⟩
    rw [List.contains_iff_mem, hCutName]
    exact List.mem_map_of_mem hKnown

/-- The second of two equal names gives its value to the first. -/
theorem attributes_of_tag_with_repeated_name :
    ∃ placed, locate (Buffer.ofText "<p A='>' b a=&amp; />".toList)
        ⟨"p", [⟨"a", "&"⟩, ⟨"b", ""⟩], some ⟨1, 0⟩⟩ = .ok placed ∧
      hasAttribute placed.source "B".toList = true := by
  have hRead : Document.read "<p A='>' b a=&amp; />".toList =
      .ok ⟨[.opened ⟨"p", [⟨"a", "&"⟩, ⟨"b", ""⟩], some ⟨1, 0⟩⟩, .closed "p"]⟩ := by
    decide +kernel
  obtain ⟨placed, hLocate, -, hHas, -⟩ := attributes_of_located_tag hRead (List.mem_singleton_self _)
  refine ⟨placed, hLocate, ?_⟩
  rw [hHas]
  decide +kernel

end AccessibleMarkup
