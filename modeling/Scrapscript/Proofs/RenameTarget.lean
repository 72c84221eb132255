import Scrapscript.Proofs.Occurrence

/-!
What can be renamed. A renaming edits the name at a position wherever it is used. Asking first what
would be renamed gives this very name, unless it is reserved or built in: then nothing is offered,
although the renaming is still made.
-/

namespace Scrapscript

/-- Whether a name means something without being declared. -/
def Catalog.isReserved (name : String) : Bool :=
  isKeyword name || isBuiltin name

namespace Document

variable {document : Document} {text : Text} {position : Position} {target : Node}

theorem referenceAt?_eq_some_iff : document.referenceAt? position = some target ↔
    document.locate? position = some target ∧ isReference target = true := by
  rw [referenceAt?, Option.filter_eq_some_iff]

theorem isSome_rename?_iff (opened : ofText text = .ok document) (uri newName : String)
    (position : Position) :
    (document.rename? uri position newName).isSome = true ↔
      ∃ target, document.referenceAt? position = some target := by
  rw [Option.isSome_iff_ne_none, ne_eq, rename?_eq_none_iff,
    ← ne_eq, references_ne_nil_iff (named_root opened)]
  simp only [referenceAt?_eq_some_iff]

/-- What a renaming is prepared for: a reference whose name is not reserved. -/
theorem renameTarget?_eq_some_iff {prepared : RenameTarget} :
    document.renameTarget? position = some prepared ↔
      ∃ target, document.referenceAt? position = some target ∧
        Catalog.isReserved target.text.asString = false ∧
        ⟨document.nodeRange target, target.text.asString⟩ = prepared := by
  have tested (name : String) :
      (Catalog.isKeyword name || Catalog.isBuiltin name) = Catalog.isReserved name := rfl
  unfold renameTarget?
  simp only [Option.bind_eq_bind, Option.bind_eq_some_iff, tested]
  refine exists_congr fun target => and_congr_right fun _ => ?_
  cases Catalog.isReserved target.text.asString
  · simp
  · simp

theorem isSome_renameTarget?_iff : (document.renameTarget? position).isSome = true ↔
    ∃ target, document.referenceAt? position = some target ∧
      Catalog.isReserved target.text.asString = false := by
  rw [Option.isSome_iff_exists]
  simp only [renameTarget?_eq_some_iff]
  constructor
  · rintro ⟨-, target, found, free, -⟩
    exact ⟨target, found, free⟩
  · rintro ⟨target, found, free⟩
    exact ⟨_, target, found, free, rfl⟩

/-- A node whose only token is a child of it spans what the token spans. -/
theorem nodeRange_of_tokens {leaf : Leaf} (child : leaf ∈ target.childLeaves)
    (single : target.tree.tokens = [leaf.token]) :
    document.nodeRange target = document.leafRange leaf := by
  obtain ⟨starts, stops⟩ := Node.leaf_span_within
    (Node.mem_leaves_of_child child (Node.mem_descendants_self target))
  have width : target.stop = target.start + leaf.token.width := by
    simp [Node.stop_eq, single, Token.widthOf]
  have start : target.start = leaf.start := by
    rw [Leaf.stop] at stops
    omega
  rw [nodeRange, leafRange, width, start, Leaf.stop]

/-- The reference at a position has the range of an occurrence of its name, and the position leads
to an offset in this range. -/
theorem exists_occurrence_of_referenceAt? (opened : ofText text = .ok document)
    (found : document.referenceAt? position = some target) :
    ∃ leaf ∈ document.occurrences target.text, ∃ offset,
      document.offset? position = some offset ∧ leaf.start ≤ offset ∧ offset ≤ leaf.stop ∧
      document.nodeRange target = document.leafRange leaf := by
  have named := named_root opened
  obtain ⟨located, refers⟩ := referenceAt?_eq_some_iff.mp found
  obtain ⟨leaf, occurs, touched⟩ := exists_occurrence_at named located refers
  obtain ⟨visited, isOccurrence⟩ := mem_occurrences.mp occurs
  cases there : document.offset? position with
  | none => simp [locate?, there] at located
  | some offset =>
      have above : leaf.parent? = some target := by simpa [locate?, there, touched] using located
      obtain ⟨-, starts, stops⟩ := mem_leaves_of_leafAt? touched there
      obtain ⟨-, -, isReference⟩ := Leaf.isOccurrence_iff.mp isOccurrence
      obtain ⟨parent, aboveParent, single, -⟩ :=
        Leaf.parent_of_isReference named visited isReference
      obtain rfl := Option.some.inj (aboveParent.symm.trans above)
      obtain ⟨other, -, child⟩ := Node.parent_of_leaf visited
      obtain rfl := Option.some.inj ((Place.parent?_of_row [] _ _ child).symm.trans above)
      exact ⟨leaf, occurs, offset, rfl, starts, stops, nodeRange_of_tokens child single⟩

theorem leafRange_contains {leaf : Leaf} {offset : Nat} (opened : ofText text = .ok document)
    (visited : leaf ∈ document.root.leaves) (there : document.offset? position = some offset)
    (starts : leaf.start ≤ offset) (stops : offset ≤ leaf.stop) :
    (document.leafRange leaf).contains (document.index.position offset) = true := by
  obtain ⟨first, last⟩ := leafRange_ends opened visited
  obtain ⟨startBoundary, stopBoundary⟩ := isBoundary_of_leaf opened visited
  obtain ⟨rfl, -⟩ := eq_of_ofText opened
  obtain ⟨boundary, -, -⟩ := LineIndex.offset?_snapped there
  rw [Range.contains, first, last, Bool.and_eq_true, decide_eq_true_eq, decide_eq_true_eq]
  exact ⟨LineIndex.position_le startBoundary boundary starts,
    LineIndex.position_le boundary stopBoundary stops⟩

/-- A renaming edits each occurrence of the name, the range of each once. -/
theorem count_range_rename? (opened : ofText text = .ok document) (uri newName : String)
    (found : document.referenceAt? position = some target) {leaf : Leaf}
    (occurs : leaf ∈ document.occurrences target.text) :
    ∃ edits : List TextEdit, document.rename? uri position newName = some ⟨[(uri, edits)]⟩ ∧
      (edits.map TextEdit.range).count (document.leafRange leaf) = 1 := by
  have named := named_root opened
  obtain ⟨located, refers⟩ := referenceAt?_eq_some_iff.mp found
  have some := (references_ne_nil_iff named uri).mpr ⟨target, located, refers⟩
  refine ⟨_, rename?_of_ne_nil some newName, ?_⟩
  rw [references_eq_occurrences named located refers, List.map_map, List.map_map]
  have distinct : ((document.occurrences target.text).map document.leafRange).Nodup := by
    have ordered := List.pairwise_map.mp (pairwise_leafRange opened)
    refine List.pairwise_map.mpr ((ordered.filter _).imp fun {earlier later} before => ?_)
    intro same
    rw [same] at before
    exact Position.lt_irrefl _ before.1
  exact List.count_eq_one_of_mem distinct (List.mem_map_of_mem occurs)

/-- A renaming is made wherever an identifier is located that does not name a tag, and offered there
unless the name is reserved. So the two agree exactly where no reserved name is. What is offered is
the range of one of the edits and of no other; the position leads into this range, and the text
there is the name that is offered. -/
theorem rename_agrees_with_target (opened : ofText text = .ok document) (uri newName : String)
    (position : Position) :
    ((document.rename? uri position newName).isSome = true ↔
        ∃ target, document.referenceAt? position = some target) ∧
      (((document.rename? uri position newName).isSome = true ↔
          (document.renameTarget? position).isSome = true) ↔
        ∀ target, document.referenceAt? position = some target →
          Catalog.isReserved target.text.asString = false) ∧
      ∀ prepared, document.renameTarget? position = some prepared →
        ∃ edits offset start stop,
          document.rename? uri position newName = some ⟨[(uri, edits)]⟩ ∧
          (edits.map TextEdit.range).count prepared.range = 1 ∧
          document.offset? position = some offset ∧
          document.offset? prepared.range.start = some start ∧
          document.offset? prepared.range.stop = some stop ∧
          start ≤ offset ∧ offset ≤ stop ∧
          prepared.range.contains (document.index.position offset) = true ∧
          text.slice? start stop = some prepared.name.toList := by
  have renamed := isSome_rename?_iff opened uri newName position
  refine ⟨renamed, ?_, fun prepared offered => ?_⟩
  · rw [renamed, isSome_renameTarget?_iff]
    constructor
    · intro agree target found
      obtain ⟨other, otherFound, free⟩ := agree.mp ⟨target, found⟩
      obtain rfl := Option.some.inj (otherFound.symm.trans found)
      exact free
    · intro free
      exact exists_congr fun target => ⟨fun found => ⟨found, free target found⟩, And.left⟩
  · obtain ⟨target, found, -, rfl⟩ := renameTarget?_eq_some_iff.mp offered
    obtain ⟨leaf, occurs, offset, there, starts, stops, range⟩ :=
      exists_occurrence_of_referenceAt? opened found
    obtain ⟨edits, edited, once⟩ := count_range_rename? opened uri newName found occurs
    obtain ⟨visited, isOccurrence⟩ := mem_occurrences.mp occurs
    obtain ⟨-, spelled, -⟩ := Leaf.isOccurrence_iff.mp isOccurrence
    obtain ⟨start, stop, slice⟩ := offset?_leafRange opened visited
    rw [spelled, (eq_of_ofText opened).1] at slice
    refine ⟨edits, offset, leaf.start, leaf.stop, edited, ?_, there, ?_, ?_, starts, stops, ?_, ?_⟩
    · rwa [range]
    · rwa [range]
    · rwa [range]
    · rw [range]
      exact leafRange_contains opened visited there starts stops
    · rw [slice, Text.asString, String.toList_ofList]

/-- The second `a` of `a + a`. -/
theorem rename_agrees_with_target_sum :
    ∃ document edits, ofText ['a', ' ', '+', ' ', 'a'] = .ok document ∧
      document.renameTarget? ⟨0, 5⟩ = some ⟨Range.between ⟨0, 4⟩ ⟨0, 5⟩, "a"⟩ ∧
      document.rename? "file:///a" ⟨0, 5⟩ "b" = some ⟨[("file:///a", edits)]⟩ ∧
      (edits.map TextEdit.range).count (Range.between ⟨0, 4⟩ ⟨0, 5⟩) = 1 := by
  have opened := ofText_of_shallow (by decide)
    (show (Parse.ofText ['a', ' ', '+', ' ', 'a']).tooDeep = false by decide +kernel)
  obtain ⟨-, -, agrees⟩ := rename_agrees_with_target opened "file:///a" "b" ⟨0, 5⟩
  obtain ⟨edits, -, -, -, renamed, once, -⟩ :=
    agrees ⟨Range.between ⟨0, 4⟩ ⟨0, 5⟩, "a"⟩ (by decide +kernel)
  exact ⟨_, edits, opened, by decide +kernel, renamed, once⟩

/-- In `list/map f xs` the built-in function is not offered, but renamed all the same. -/
theorem rename_of_builtin_not_offered :
    ∃ document,
      ofText ['l', 'i', 's', 't', '/', 'm', 'a', 'p', ' ', 'f', ' ', 'x', 's'] = .ok document ∧
      document.renameTarget? ⟨0, 1⟩ = none ∧
      document.rename? "file:///a" ⟨0, 1⟩ "y" =
        some ⟨[("file:///a", [⟨Range.between ⟨0, 0⟩ ⟨0, 8⟩, "y"⟩])]⟩ :=
  ⟨_, ofText_of_shallow (by decide) (show (Parse.ofText
    ['l', 'i', 's', 't', '/', 'm', 'a', 'p', ' ', 'f', ' ', 'x', 's']).tooDeep = false by
      decide +kernel), by decide +kernel, by decide +kernel⟩

end Document

end Scrapscript
