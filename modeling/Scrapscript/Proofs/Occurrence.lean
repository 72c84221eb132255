import Scrapscript.Proofs.Lookup
import Scrapscript.Proofs.Renaming

/-!
The occurrences of a name. The references at a position are the identifiers that are spelled like
the one there, in document order and apart from each other; their edits spell these tokens anew and
nothing else. From each occurrence the same references are found.
-/

namespace Scrapscript

/-- Whether a token is an identifier of a name, the name of a tag excepted. -/
def Leaf.isOccurrence (name : Text) (leaf : Leaf) : Bool :=
  leaf.kind == .ident && leaf.text == name && leaf.isReference

/-- The identifiers of a name in document order, the names of tags excepted. -/
def Document.occurrences (document : Document) (name : Text) : List Leaf :=
  document.root.leaves.filter (Leaf.isOccurrence name)

theorem Leaf.isOccurrence_iff {name : Text} {leaf : Leaf} :
    leaf.isOccurrence name = true ↔
      leaf.kind = .ident ∧ leaf.text = name ∧ leaf.isReference = true := by
  simp [isOccurrence, and_assoc]

namespace Document

variable {document : Document} {text name : Text} {position : Position} {offset : Nat}
  {target : Node} {leaf : Leaf}

theorem isOccurrence_eq_refersTo (named : document.root.tree.Everywhere Named)
    (visited : leaf ∈ document.root.leaves) : leaf.isOccurrence name = leaf.refersTo name := by
  rw [Bool.eq_iff_iff, Leaf.isOccurrence_iff, Leaf.refersTo, Bool.and_eq_true, beq_iff_eq]
  constructor
  · rintro ⟨-, spelled, refers⟩
    exact ⟨refers, spelled⟩
  · rintro ⟨refers, spelled⟩
    obtain ⟨-, -, -, kind⟩ := Leaf.parent_of_isReference named visited refers
    exact ⟨kind, spelled, refers⟩

theorem occurrences_eq (named : document.root.tree.Everywhere Named) (name : Text) :
    document.occurrences name = document.root.leaves.filter (Leaf.refersTo name) :=
  List.filter_congr fun _ => isOccurrence_eq_refersTo named

theorem mem_occurrences :
    leaf ∈ document.occurrences name ↔
      leaf ∈ document.root.leaves ∧ leaf.isOccurrence name = true :=
  List.mem_filter

/-- A token and what is around it in the text. -/
theorem exists_text_around_leaf (opened : ofText text = .ok document)
    (visited : leaf ∈ document.root.leaves) :
    ∃ before after, text = before ++ leaf.text ++ after ∧ leaf.start = before.bytes := by
  obtain ⟨before, after, tokens, start⟩ := Node.within_of_leaf visited
  rw [← Node.token_leaves, token_leaves opened] at tokens
  refine ⟨Token.textOf before, Token.textOf after, ?_, ?_⟩
  · rw [← Lexer.textOf_tokenize text, tokens, Token.textOf_append]
    simp [Token.textOf, Leaf.text]
  · rw [Token.bytes_textOf, start]
    exact Nat.zero_add _

/-- The range of a token leads back to the token's offsets, and the text between them is that of
the token. -/
theorem offset?_leafRange (opened : ofText text = .ok document)
    (visited : leaf ∈ document.root.leaves) :
    document.offset? (document.leafRange leaf).start = some leaf.start ∧
      document.offset? (document.leafRange leaf).stop = some leaf.stop ∧
      document.text.slice? leaf.start leaf.stop = some leaf.text := by
  obtain ⟨before, after, split, start⟩ := exists_text_around_leaf opened visited
  obtain ⟨rfl, -⟩ := eq_of_ofText opened
  have stop : leaf.stop = before.bytes + leaf.text.bytes := by
    rw [Leaf.stop, start]
    rfl
  obtain ⟨starts, stops⟩ := LineIndex.offset?_range split
  simp only [leafRange, range, Document.offset?, start, stop]
  refine ⟨starts, stops, ?_⟩
  rw [split]
  exact Text.slice?_append _ _ _

theorem isBoundary_of_leaf (opened : ofText text = .ok document)
    (visited : leaf ∈ document.root.leaves) :
    text.IsBoundary leaf.start ∧ text.IsBoundary leaf.stop := by
  obtain ⟨before, after, split, start⟩ := exists_text_around_leaf opened visited
  refine ⟨⟨before, ⟨leaf.text ++ after, by simp [split]⟩, start.symm⟩,
    ⟨before ++ leaf.text, ⟨after, split.symm⟩, ?_⟩⟩
  rw [Text.bytes_append, Leaf.stop, start]
  rfl

theorem leafRange_ends (opened : ofText text = .ok document)
    (visited : leaf ∈ document.root.leaves) :
    (document.leafRange leaf).start = document.index.position leaf.start ∧
      (document.leafRange leaf).stop = document.index.position leaf.stop := by
  obtain ⟨starts, stops⟩ := isBoundary_of_leaf opened visited
  obtain ⟨rfl, -⟩ := eq_of_ofText opened
  exact LineIndex.range_ends starts stops (by simp [Leaf.stop])

theorem leafRange_start_lt_stop (opened : ofText text = .ok document)
    (visited : leaf ∈ document.root.leaves) :
    (document.leafRange leaf).start < (document.leafRange leaf).stop := by
  obtain ⟨start, stop⟩ := leafRange_ends opened visited
  obtain ⟨starts, stops⟩ := isBoundary_of_leaf opened visited
  have wide := leaf_width_pos opened visited
  obtain ⟨rfl, -⟩ := eq_of_ofText opened
  rw [start, stop]
  exact LineIndex.position_lt starts stops (by rw [Leaf.stop]; omega)

/-- The ranges of tokens follow one another without overlap. -/
theorem pairwise_leafRange (opened : ofText text = .ok document) :
    (document.root.leaves.map document.leafRange).Pairwise fun earlier later =>
      earlier.start < later.start ∧ earlier.stop ≤ later.start := by
  rw [List.pairwise_map]
  refine (adjoin_leaves opened).pairwise.imp_of_mem ?_
  intro earlier later earlierVisited laterVisited ordered
  obtain ⟨earlierStart, earlierStop⟩ := leafRange_ends opened earlierVisited
  obtain ⟨laterStart, -⟩ := leafRange_ends opened laterVisited
  obtain ⟨starts, stops⟩ := isBoundary_of_leaf opened earlierVisited
  obtain ⟨laterStarts, -⟩ := isBoundary_of_leaf opened laterVisited
  have wide := leaf_width_pos opened earlierVisited
  rw [Leaf.stop] at ordered
  obtain ⟨rfl, -⟩ := eq_of_ofText opened
  rw [earlierStart, earlierStop, laterStart]
  exact ⟨LineIndex.position_lt starts laterStarts (by omega),
    LineIndex.position_le stops laterStarts ordered⟩

/-- The token at a position where a reference is located is an occurrence of its name. -/
theorem exists_occurrence_at (named : document.root.tree.Everywhere Named)
    (located : document.locate? position = some target) (refers : isReference target = true) :
    ∃ leaf ∈ document.occurrences target.text, document.leafAt? position = some leaf := by
  obtain ⟨leaf, visited, found, refersTo⟩ := exists_leaf_of_locate? named located refers
  refine ⟨leaf, mem_occurrences.mpr ⟨visited, ?_⟩, found⟩
  rw [isOccurrence_eq_refersTo named visited, refersTo]

/-- Where a reference is located, the references are the occurrences of its name. -/
theorem references_eq_occurrences (named : document.root.tree.Everywhere Named)
    (located : document.locate? position = some target) (refers : isReference target = true)
    (uri : String) :
    document.references uri position =
      (document.occurrences target.text).map fun leaf => ⟨uri, document.leafRange leaf⟩ := by
  have found : document.referenceAt? position = some target := by
    simp [referenceAt?, located, refers]
  have ranges := congrArg (List.map (Location.mk uri)) (nodeRange_referencesAt named found)
  rw [← occurrences_eq named, List.map_map, List.map_map] at ranges
  exact ranges

theorem references_eq_nil (elsewhere : ∀ target, document.locate? position = some target →
    isReference target = false) (uri : String) : document.references uri position = [] := by
  have absent : document.referenceAt? position = none := by
    cases located : document.locate? position with
    | none => simp [referenceAt?, located]
    | some target => simp [referenceAt?, located, elsewhere target located]
  simp [references, referencesAt, absent]

theorem references_ne_nil_iff (named : document.root.tree.Everywhere Named) (uri : String) :
    document.references uri position ≠ [] ↔
      ∃ target, document.locate? position = some target ∧ isReference target = true := by
  constructor
  · intro some
    by_contra none
    refine some (references_eq_nil (fun target located => ?_) uri)
    rw [← Bool.not_eq_true]
    exact fun refers => none ⟨target, located, refers⟩
  · rintro ⟨target, located, refers⟩
    obtain ⟨leaf, listed, -⟩ := exists_occurrence_at named located refers
    rw [references_eq_occurrences named located refers, ne_eq, List.map_eq_nil_iff]
    exact List.ne_nil_of_mem listed

theorem rename?_eq_none_iff (uri name : String) :
    document.rename? uri position name = none ↔ document.references uri position = [] := by
  unfold rename?
  split
  · simp [*]
  · rename_i some
    exact ⟨nofun, fun none => absurd none some⟩

theorem rename?_of_ne_nil {uri : String} (some : document.references uri position ≠ [])
    (name : String) :
    document.rename? uri position name =
      .some ⟨[(uri, (document.references uri position).map fun location =>
        ⟨location.range, name⟩)]⟩ := by
  unfold rename?
  split
  · contradiction
  · rfl

theorem isReference_iff {node : Node} :
    isReference node = true ↔ node.kind = .identifier ∧ node.parentIs .tag = false := by
  simp [isReference]

/-- There are references exactly where an identifier is located that does not name a tag. They are
the occurrences of its name in document order, the one at the position among them, none of them
empty or overlapping another, and their ranges lead back to the tokens. A renaming edits each of
them once, in this order, and so spells these tokens anew and keeps all others. -/
theorem references_are_occurrences (opened : ofText text = .ok document) (uri newName : String)
    (position : Position) :
    (document.references uri position ≠ [] ↔ ∃ target, document.locate? position = some target ∧
        target.kind = .identifier ∧ target.parentIs .tag = false) ∧
      (document.rename? uri position newName = none ↔ document.references uri position = []) ∧
      document.root.leaves.map (fun leaf => (leaf.token, leaf.start)) =
        Token.located 0 (Lexer.tokenize text) ∧
      ∀ target, document.locate? position = some target → target.kind = .identifier →
        target.parentIs .tag = false →
        document.references uri position =
            (document.occurrences target.text).map (fun leaf => ⟨uri, document.leafRange leaf⟩) ∧
          (∃ leaf ∈ document.occurrences target.text, document.leafAt? position = some leaf) ∧
          (document.references uri position).Pairwise (fun earlier later =>
            earlier.range.start < later.range.start ∧ earlier.range.stop ≤ later.range.start) ∧
          (∀ leaf ∈ document.occurrences target.text,
            (document.leafRange leaf).start < (document.leafRange leaf).stop ∧
              document.offset? (document.leafRange leaf).start = some leaf.start ∧
              document.offset? (document.leafRange leaf).stop = some leaf.stop ∧
              text.slice? leaf.start leaf.stop = some target.text) ∧
          ∃ edits : List TextEdit,
            document.rename? uri position newName = some ⟨[(uri, edits)]⟩ ∧
            edits = (document.references uri position).map
              (fun location => ⟨location.range, newName⟩) ∧
            document.edited? edits = some (document.root.leaves.flatMap fun leaf =>
              if leaf.isOccurrence target.text then newName.toList else leaf.text) := by
  have named := named_root opened
  refine ⟨?_, rename?_eq_none_iff uri newName, located_leaves opened, ?_⟩
  · simp only [references_ne_nil_iff named, isReference_iff]
  intro target located identifier untagged
  have refers := isReference_iff.mpr ⟨identifier, untagged⟩
  have references := references_eq_occurrences named located refers uri
  have some := (references_ne_nil_iff named uri).mpr ⟨target, located, refers⟩
  refine ⟨references, exists_occurrence_at named located refers, ?_, ?_, _,
    rename?_of_ne_nil some newName, rfl, ?_⟩
  · have ordered := List.pairwise_map.mp (pairwise_leafRange opened)
    rw [references, List.pairwise_map]
    exact ordered.filter _
  · intro leaf listed
    obtain ⟨visited, occurs⟩ := mem_occurrences.mp listed
    obtain ⟨-, spelled, -⟩ := Leaf.isOccurrence_iff.mp occurs
    obtain ⟨starts, stops, slice⟩ := offset?_leafRange opened visited
    rw [spelled, (eq_of_ofText opened).1] at slice
    exact ⟨leafRange_start_lt_stop opened visited, starts, stops, slice⟩
  · have edited := edited?_leaves opened (Leaf.isOccurrence target.text) newName
    rw [references, List.map_map]
    refine edited.trans (congrArg Option.some ?_)
    rw [Token.textOf, List.flatMap_map]
    refine List.flatMap_congr fun leaf _ => ?_
    rw [Token.respelled, apply_ite Token.text]
    rfl

/-- A name that a tag has as well, with a character that begins no token between its occurrences. -/
theorem references_are_occurrences_apart :
    ∃ document target edits,
      ofText ['#', 'a', ' ', 'a', ' ', '𝄞', ' ', '(', 'a'] = .ok document ∧
      document.locate? ⟨0, 10⟩ = some target ∧ target.kind = .identifier ∧
      target.parentIs .tag = false ∧
      document.references "file:///a" ⟨0, 10⟩ =
        [⟨"file:///a", Range.between ⟨0, 3⟩ ⟨0, 4⟩⟩,
          ⟨"file:///a", Range.between ⟨0, 9⟩ ⟨0, 10⟩⟩] ∧
      document.rename? "file:///a" ⟨0, 10⟩ "bb" = some ⟨[("file:///a", edits)]⟩ ∧
      document.edited? edits =
        some ['#', 'a', ' ', 'b', 'b', ' ', '𝄞', ' ', '(', 'b', 'b'] := by
  have opened := ofText_of_shallow (by decide)
    (show (Parse.ofText ['#', 'a', ' ', 'a', ' ', '𝄞', ' ', '(', 'a']).tooDeep = false by
      decide +kernel)
  obtain ⟨target, located, identifier, untagged, name⟩ :=
    exists_reference ['#', 'a', ' ', 'a', ' ', '𝄞', ' ', '(', 'a'] ⟨0, 10⟩ ['a'] (by decide +kernel)
  obtain ⟨-, -, -, exact⟩ := references_are_occurrences opened "file:///a" "bb" ⟨0, 10⟩
  obtain ⟨-, -, -, -, edits, renames, -, edited⟩ := exact target located identifier untagged
  refine ⟨_, target, edits, opened, located, identifier, untagged, by decide +kernel, renames, ?_⟩
  rw [edited, name]
  decide +kernel

/-- A token that is not trivia is found at the offsets inside of it and at its end, and at its start
if nothing or trivia is before it. -/
theorem leafAt?_of_touched (opened : ofText text = .ok document)
    (visited : leaf ∈ document.root.leaves) (significant : leaf.isTrivia = false)
    (there : document.offset? position = some offset)
    (here : leaf.start < offset ∧ offset ≤ leaf.stop ∨ offset = leaf.start ∧ (leaf.start = 0 ∨
      ∃ blank ∈ document.root.leaves, blank.isTrivia = true ∧ blank.stop = leaf.start)) :
    document.leafAt? position = some leaf := by
  have among {other : Leaf} (otherVisited : other ∈ document.root.leaves)
      (starts : other.start ≤ offset) (stops : offset ≤ other.stop) :
      other ∈ document.root.leaves.filter (Leaf.touches offset) :=
    List.mem_filter.mpr ⟨otherVisited,
      Leaf.touches_iff.mpr ⟨leaf_width_pos opened otherVisited, starts, stops⟩⟩
  have wide := leaf_width_pos opened visited
  have stop : leaf.stop = leaf.start + leaf.token.width := rfl
  have itself := among visited (by omega) (by omega)
  rw [leafAt?_eq_pick there]
  rcases (adjoin_leaves opened).filter_touches offset with
    none | ⟨only, found⟩ | ⟨left, right, found, leftStop, rightStart⟩
  · simp [none] at itself
  · rw [found, List.mem_singleton] at itself
    rw [found, itself]
    rfl
  · rw [found, List.mem_pair] at itself
    rw [found]
    rcases itself with rfl | rfl
    · simp [pick, significant]
    · have leftTrivia : left.isTrivia = true := by
        rcases here with ⟨inside, -⟩ | ⟨-, first | ⟨blank, blankVisited, trivia, ends⟩⟩
        · omega
        · have listed : left ∈ document.root.leaves.filter (Leaf.touches offset) := by simp [found]
          have leftWide := leaf_width_pos opened (List.mem_of_mem_filter listed)
          rw [Leaf.stop] at leftStop
          omega
        · have listed := among blankVisited (by rw [Leaf.stop] at ends; omega) (by omega)
          rw [found, List.mem_pair] at listed
          rcases listed with rfl | rfl
          · exact trivia
          · omega
      simp [pick, leftTrivia, significant]

/-- From every occurrence the same references are found, at the offsets inside of it and at its end,
and at its start if nothing or trivia is before it. -/
theorem references_from_occurrence (opened : ofText text = .ok document) (uri : String)
    (position : Position) (location : Location)
    (listed : location ∈ document.references uri position) :
    ∃ start stop, document.offset? location.range.start = some start ∧
      document.offset? location.range.stop = some stop ∧
      ∀ other offset, document.offset? other = some offset →
        (start < offset ∧ offset ≤ stop ∨ offset = start ∧ (start = 0 ∨
          ∃ blank ∈ Token.located 0 (Lexer.tokenize text),
            blank.1.isTrivia = true ∧ blank.2 + blank.1.width = start)) →
        document.references uri other = document.references uri position := by
  have named := named_root opened
  obtain ⟨target, located, refers⟩ :=
    (references_ne_nil_iff named uri).mp (List.ne_nil_of_mem listed)
  rw [references_eq_occurrences named located refers] at listed ⊢
  obtain ⟨leaf, occurs, rfl⟩ := List.mem_map.mp listed
  obtain ⟨visited, isOccurrence⟩ := mem_occurrences.mp occurs
  obtain ⟨kind, spelled, isReference⟩ := Leaf.isOccurrence_iff.mp isOccurrence
  obtain ⟨starts, stops, -⟩ := offset?_leafRange opened visited
  refine ⟨leaf.start, leaf.stop, starts, stops, ?_⟩
  intro other offset there here
  have significant : leaf.isTrivia = false := by
    rw [Leaf.isTrivia, Token.isTrivia, show leaf.token.kind = .ident from kind]
    rfl
  have found : document.leafAt? other = some leaf := by
    refine leafAt?_of_touched opened visited significant there (here.imp_right ?_)
    rintro ⟨same, first | ⟨blank, scanned, trivia, ends⟩⟩
    · exact ⟨same, .inl first⟩
    · rw [← located_leaves opened] at scanned
      obtain ⟨blankLeaf, blankVisited, rfl⟩ := List.mem_map.mp scanned
      exact ⟨same, .inr ⟨blankLeaf, blankVisited, trivia, ends⟩⟩
  -- The node that is located there is the identifier of the occurrence.
  obtain ⟨parent, above, tokens, -⟩ := Leaf.parent_of_isReference named visited isReference
  have otherLocated : document.locate? other = some parent := by
    simp only [locate?, there, found, above]
  have otherRefers : Document.isReference parent = true := by
    simpa [Leaf.isReference, above] using isReference
  have sameName : parent.text = target.text := by
    rw [← spelled]
    simp [Node.text, Tree.text, tokens, Token.textOf, Leaf.text]
  rw [references_eq_occurrences named otherLocated otherRefers, sameName]

/-- The second `a` of `a + a`, right after the blank before it. -/
theorem references_from_occurrence_start :
    ∃ document, ofText ['a', ' ', '+', ' ', 'a'] = .ok document ∧
      ⟨"file:///a", Range.between ⟨0, 4⟩ ⟨0, 5⟩⟩ ∈ document.references "file:///a" ⟨0, 1⟩ ∧
      document.offset? ⟨0, 4⟩ = some 4 ∧
      document.references "file:///a" ⟨0, 4⟩ = document.references "file:///a" ⟨0, 1⟩ := by
  have opened := ofText_of_shallow (by decide)
    (show (Parse.ofText ['a', ' ', '+', ' ', 'a']).tooDeep = false by decide +kernel)
  obtain ⟨start, stop, starts, -, same⟩ :=
    references_from_occurrence opened "file:///a" ⟨0, 1⟩
      ⟨"file:///a", Range.between ⟨0, 4⟩ ⟨0, 5⟩⟩ (by decide +kernel)
  obtain rfl : start = 4 := Option.some.inj (starts.symm.trans (by decide +kernel))
  refine ⟨_, opened, by decide +kernel, by decide +kernel,
    same ⟨0, 4⟩ 4 (by decide +kernel) (.inr ⟨rfl, .inr ?_⟩)⟩
  exact ⟨(⟨.whitespace, [' ']⟩, 3), by decide +kernel, rfl, by decide⟩

end Document

end Scrapscript
