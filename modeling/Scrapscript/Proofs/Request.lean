import Scrapscript.Completion.Context
import Scrapscript.Hover
import Scrapscript.Proofs.Document

/-!
Requests at a position. A position is answered as the character boundary that it leads to, whatever
the request, and an explanation is that of the innermost node around this boundary whose kind has
one.
-/

namespace Scrapscript

open Scrapscript.Tree (withoutTrivia)

namespace NodeKind

/-- The kinds of nodes that are explained. -/
def isExplained : NodeKind → Bool
  | identifier | operator | tag | number | text | bytes | function | patternMatch | whereClause
  | record | list | hole | pipeline | operation | application => true
  | _ => false

end NodeKind

namespace Node

/-- Whether a node is explained on its own. The name inside a tag is explained by the tag. -/
def isExplained (node : Node) : Bool :=
  node.kind.isExplained && !(node.kind == .identifier && node.parentIs .tag)

theorem isSome_firstToken? {node : Node} {token : Token} (child : .leaf token ∈ node.children)
    (significant : token.isTrivia = false) : node.firstToken?.isSome = true := by
  have listed : Tree.leaf token ∈ node.childLeaves.map (Tree.leaf ·.token) := by
    rw [map_childLeaves, List.mem_filter]
    exact ⟨child, rfl⟩
  obtain ⟨leaf, childLeaf, same⟩ := List.mem_map.mp listed
  rw [firstToken?, List.find?_isSome]
  refine ⟨leaf, childLeaf, ?_⟩
  simp [Leaf.isTrivia, Tree.leaf.inj same, significant]

end Node

namespace Hover

section

variable {node : Node} (allowed : node.tree.Everywhere Allowed)

include allowed

theorem isSome_name? (identifier : node.kind = .identifier) : node.name?.isSome = true := by
  have row := allowed.1
  rw [Allowed, identifier] at row
  obtain ⟨tree, child, isToken⟩ := Grammar.exists_of_fills_one row
  obtain ⟨token, rfl, kind⟩ := Grammar.exists_leaf_of_isToken isToken
  have tokens := Tree.significantTokens_withoutTrivia node.children
  rw [child] at tokens
  have significant : token.isTrivia = false := by simp [Token.isTrivia, kind, TokenKind.isTrivia]
  simp [Node.name?, Tree.name?, Node.tree, Tree.children, ← tokens, Tree.significantTokens,
    significant]

theorem isSome_operator (operator : node.kind = .operator) : node.firstToken?.isSome = true := by
  have row := allowed.1
  rw [Allowed, operator] at row
  obtain ⟨tree, child, isToken⟩ := Grammar.exists_of_fills_one row
  obtain ⟨token, rfl, kind⟩ := Grammar.exists_leaf_of_isTokenOf isToken
  have listed : Tree.leaf token ∈ withoutTrivia node.children := child ▸ .head _
  rw [withoutTrivia, List.mem_filter] at listed
  exact Node.isSome_firstToken? listed.1 (by simpa [Tree.isTrivia] using listed.2)

theorem isSome_operatorToken? (operation : node.kind = .operation) :
    node.operatorToken?.isSome = true := by
  have row := allowed.1
  rw [Allowed, operation] at row
  obtain ⟨left, symbol, right, children, -, isOperator, -⟩ := Grammar.exists_of_fills_three row
  obtain ⟨inner, rfl⟩ : ∃ inner, symbol = .node .operator inner := by
    unfold Tree.operator? at isOperator
    split at isOperator
    · exact ⟨_, rfl⟩
    · contradiction
  have listed : Tree.node .operator inner ∈ node.childNodes.map Node.tree := by
    have child : Tree.node .operator inner ∈ withoutTrivia node.children :=
      children ▸ .tail _ (.head _)
    rw [Node.map_childNodes, List.mem_filter]
    exact ⟨List.mem_of_mem_filter child, rfl⟩
  obtain ⟨other, childNode, same⟩ := List.mem_map.mp listed
  have present : (node.childNodes.find? (·.kind == .operator)).isSome = true := by
    rw [List.find?_isSome]
    exact ⟨other, childNode, by simp [(Tree.node.inj same).1]⟩
  obtain ⟨found, search⟩ := Option.isSome_iff_exists.mp present
  have visited := Node.mem_descendants_of_child (List.mem_of_find?_eq_some search)
  rw [Node.operatorToken?, search, Option.bind_some]
  apply isSome_operator (Node.everywhere_of_descendant allowed visited)
  simpa using List.find?_some search

/-- A node has an explanation exactly if nodes of its kind do: the pieces that the explanation is
made of are never missing. -/
theorem isSome_explain? : (explain? node).isSome = node.kind.isExplained := by
  unfold explain?
  cases kind : node.kind with
  | identifier => simpa [NodeKind.isExplained] using isSome_name? allowed kind
  | operator => simpa [NodeKind.isExplained] using isSome_operator allowed kind
  | operation => simpa [NodeKind.isExplained] using isSome_operatorToken? allowed kind
  | _ => rfl

end

end Hover

namespace Document

variable {document : Document} {text : Text} {position : Position} {located : Node} {offset : Nat}

/-- On a line that exists some node is located, and the offset lies in it. -/
theorem exists_located (opened : ofText text = .ok document)
    (there : document.offset? position = some offset) :
    ∃ node ∈ document.root.descendants, document.locate? position = some node ∧
      node.start ≤ offset ∧ offset ≤ node.stop := by
  simp only [locate?, there]
  cases found : document.leafAt? position with
  | none =>
      obtain ⟨rfl, -⟩ := eq_of_ofText opened
      obtain ⟨⟨before, ⟨after, split⟩, rfl⟩, -, -⟩ := LineIndex.offset?_snapped there
      refine ⟨_, Node.mem_descendants_self _, rfl, Nat.zero_le _, ?_⟩
      have stop : (Parse.ofText text).root.stop = text.bytes := by
        rw [Node.stop_eq, ← Token.bytes_textOf]
        show 0 + Text.bytes (Parse.ofText text).root.text = _
        rw [Parse.text_root, Nat.zero_add]
      show before.bytes ≤ (Parse.ofText text).root.stop
      rw [stop, ← split, Text.bytes_append]
      exact Nat.le_add_right _ _
  | some leaf =>
      obtain ⟨visited, starts, stops⟩ := mem_leaves_of_leafAt? found there
      obtain ⟨parent, below, child⟩ := Node.parent_of_leaf visited
      have around : leaf.parent? = some parent := Place.parent?_of_row [] _ _ child
      have span := Node.leaf_span_within
        (Node.mem_leaves_of_child child (Node.mem_descendants_self parent))
      exact ⟨parent, below, around, by omega, by omega⟩

theorem locate?_visited {node : Node} (opened : ofText text = .ok document)
    (located : document.locate? position = some node) : node ∈ document.root.descendants := by
  cases there : document.offset? position with
  | none => simp [locate?, there] at located
  | some offset =>
      obtain ⟨found, visited, same, -⟩ := exists_located opened there
      rwa [Option.some.inj (located.symm.trans same)]

theorem nodeRange_contains {node : Node} (opened : ofText text = .ok document)
    (visited : node ∈ document.root.descendants) (boundary : text.IsBoundary offset)
    (starts : node.start ≤ offset) (stops : offset ≤ node.stop) :
    (document.nodeRange node).contains (document.index.position offset) = true := by
  obtain ⟨first, last⟩ := nodeRange_ends opened visited
  obtain ⟨startBoundary, stopBoundary⟩ := isBoundary_of_node opened visited
  obtain ⟨rfl, -⟩ := eq_of_ofText opened
  rw [Range.contains, first, last, Bool.and_eq_true, decide_eq_true_eq, decide_eq_true_eq]
  exact ⟨LineIndex.position_le startBoundary boundary starts,
    LineIndex.position_le boundary stopBoundary stops⟩

/-- Two positions at which all requests are answered alike. -/
structure Indistinguishable (document : Document) (first second : Position) : Prop where
  leafAt : document.leafAt? first = document.leafAt? second
  locate : document.locate? first = document.locate? second
  lineBefore : document.lineBefore first = document.lineBefore second
  context : Completion.contextAt document first = Completion.contextAt document second
  suggestions : Completion.suggestions document first = Completion.suggestions document second
  hover : Hover.at? document first = Hover.at? document second
  references : ∀ uri, document.references uri first = document.references uri second
  renameTarget : document.renameTarget? first = document.renameTarget? second
  rename : ∀ uri name, document.rename? uri first name = document.rename? uri second name

/-- Positions on one line that lead to one offset are not told apart. -/
theorem indistinguishable_of_offset? {first second : Position} (line : first.line = second.line)
    (same : document.offset? first = document.offset? second) :
    document.Indistinguishable first second := by
  have leafAt : document.leafAt? first = document.leafAt? second := by
    simp only [leafAt?, same]
  have locate : document.locate? first = document.locate? second := by
    simp only [locate?, same, leafAt]
  have lineBefore : document.lineBefore first = document.lineBefore second := by
    simp only [Document.lineBefore, same, line]
  have context : Completion.contextAt document first = Completion.contextAt document second := by
    simp only [Completion.contextAt, locate, lineBefore]
  have target : document.referenceAt? first = document.referenceAt? second := by
    rw [referenceAt?, referenceAt?, locate]
  have references (uri : String) :
      document.references uri first = document.references uri second := by
    simp only [Document.references, referencesAt, target]
  refine ⟨leafAt, locate, lineBefore, context, ?_, ?_, references, ?_, ?_⟩
  · rw [Completion.suggestions, Completion.suggestions, context]
  · rw [Hover.at?, Hover.at?, locate]
  · rw [renameTarget?, renameTarget?, target]
  · intro uri name
    rw [rename?, rename?, references]

section

variable (opened : ofText text = .ok document) (located : Node)
  (found : document.locate? position = some located)

include found

theorem exists_of_hover {hover : Hover} (answered : Hover.at? document position = some hover) :
    ∃ node ∈ located.ancestors, hover.range = document.nodeRange node := by
  simp only [Hover.at?, found, Option.bind_eq_bind, Option.bind_some] at answered
  obtain ⟨node, around, explained⟩ := List.exists_of_findSome?_eq_some answered
  refine ⟨node, around, ?_⟩
  by_cases named : (node.kind == .identifier && node.parentIs .tag) = true
  · simp [named] at explained
  · rw [if_neg named] at explained
    obtain ⟨contents, -, rfl⟩ := Option.map_eq_some_iff.mp explained
    rfl

include opened

/-- There is no explanation exactly if no node around the position is explained. -/
theorem hover_eq_none_iff (visited : located ∈ document.root.descendants) :
    Hover.at? document position = none ↔
      ∀ node ∈ located.ancestors, node.isExplained = false := by
  have outermost : document.root.above = [] := by
    obtain ⟨rfl, -⟩ := eq_of_ofText opened
    rfl
  simp only [Hover.at?, found, Option.bind_eq_bind, Option.bind_some, List.findSome?_eq_none_iff]
  apply forall₂_congr
  intro node around
  obtain ⟨below, -⟩ := Node.mem_descendants_of_ancestor outermost visited around
  have explained := Hover.isSome_explain?
    (Node.everywhere_of_descendant (allowed_root opened) below)
  by_cases named : (node.kind == .identifier && node.parentIs .tag) = true
  · simp [Node.isExplained, named]
  · simp only [Node.isExplained, named, ← explained]
    simp

end

/-- A position whose line exists leads to an offset, and the position of this offset is on the same
line and not told apart from it by any request. If there is an explanation, it is that of the
located node or of one around it, and its range contains the offset's position; there is none
exactly if the kinds of these nodes have none, the name inside a tag aside. Where the line does not
exist, there is nothing to locate, to explain, to refer to or to rename. -/
theorem requests_at_snapped (opened : ofText text = .ok document) (position : Position) :
    (position.line ≤ text.count '\n' → ∃ offset located,
      document.offset? position = some offset ∧ document.locate? position = some located ∧
      (document.index.position offset).line = position.line ∧
      document.Indistinguishable position (document.index.position offset) ∧
      (∀ hover, Hover.at? document position = some hover →
        hover.range.contains (document.index.position offset) = true ∧
          ∃ node ∈ located.ancestors, hover.range = document.nodeRange node) ∧
      (Hover.at? document position = none ↔
        ∀ node ∈ located.ancestors, node.isExplained = false)) ∧
    (text.count '\n' < position.line →
      document.locate? position = none ∧ Hover.at? document position = none ∧
      document.renameTarget? position = none ∧ (∀ uri, document.references uri position = []) ∧
      Completion.contextAt document position = .global) := by
  have indexed : document.index = .ofText text := by
    obtain ⟨rfl, -⟩ := eq_of_ofText opened
    rfl
  have outermost : document.root.above = [] := by
    obtain ⟨rfl, -⟩ := eq_of_ofText opened
    rfl
  constructor
  · intro inside
    obtain ⟨offset, there⟩ := exists_offset opened inside
    obtain ⟨located, visited, found, starts, stops⟩ := exists_located opened there
    have snapped := there
    rw [offset?, indexed] at snapped
    obtain ⟨boundary, line, again⟩ := LineIndex.offset?_snapped snapped
    rw [← indexed] at line again
    refine ⟨offset, located, there, found, line, ?_, ?_, hover_eq_none_iff opened _ found visited⟩
    · exact indistinguishable_of_offset? line.symm (there.trans again.symm)
    · intro hover answered
      obtain ⟨node, around, range⟩ := exists_of_hover _ found answered
      obtain ⟨below, within⟩ := Node.mem_descendants_of_ancestor outermost visited around
      have span := Node.span_within within
      rw [range]
      exact ⟨nodeRange_contains opened below boundary (by omega) (by omega), node, around, rfl⟩
  · intro past
    have absent : document.offset? position = none := by
      rw [offset?, indexed]
      exact (LineIndex.offset?_eq_none_iff position).mpr past
    have nowhere : document.locate? position = none := by
      rw [locate?, absent]
    have untargeted : document.referenceAt? position = none := by
      rw [referenceAt?, nowhere, Option.filter_none]
    refine ⟨nowhere, ?_, ?_, ?_, ?_⟩
    · rw [Hover.at?, nowhere]
      rfl
    · rw [renameTarget?, untargeted]
      rfl
    · intro uri
      rw [references, referencesAt, untargeted]
      rfl
    · rw [Completion.contextAt, nowhere]

/-- A position between the two units of a surrogate pair, and one past the last line. -/
theorem requests_at_snapped_pair :
    ∃ document, ofText ['"', '𝄞', '"', '\n', 'x'] = .ok document ∧
      document.index.lines.length = 2 ∧ document.offset? ⟨0, 2⟩ = some 1 ∧
      document.index.position 1 = ⟨0, 1⟩ ∧ (Hover.at? document ⟨0, 2⟩).isSome = true ∧
      document.Indistinguishable ⟨0, 2⟩ ⟨0, 1⟩ ∧ document.locate? ⟨2, 0⟩ = none := by
  have opened := ofText_of_shallow (by decide)
    (show (Parse.ofText ['"', '𝄞', '"', '\n', 'x']).tooDeep = false by decide +kernel)
  have snapped : (LineIndex.ofText ['"', '𝄞', '"', '\n', 'x']).offset? ⟨0, 2⟩ = some 1 := by
    decide +kernel
  have start : (LineIndex.ofText ['"', '𝄞', '"', '\n', 'x']).position 1 = ⟨0, 1⟩ := by
    decide +kernel
  obtain ⟨offset, -, there, -, -, alike, -⟩ :=
    (requests_at_snapped opened ⟨0, 2⟩).1 (by decide +kernel)
  obtain rfl : offset = 1 := Option.some.inj (there.symm.trans snapped)
  have nowhere := ((requests_at_snapped opened ⟨2, 0⟩).2 (by decide +kernel)).1
  exact ⟨_, opened, by decide +kernel, snapped, start, by decide +kernel, start ▸ alike, nowhere⟩

end Document

end Scrapscript
