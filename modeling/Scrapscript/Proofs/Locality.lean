import Scrapscript.Proofs.Grammar.Separable
import Scrapscript.Proofs.Token.Boundary

/-!
A part of a document on its own. Whatever a document looks like around it, an expression or a
declaration without errors that is cut out of it is parsed into the same tree.
-/

namespace Scrapscript

namespace Place

/-- What stands at a place. -/
def tree : Place → Tree
  | node found => found.tree
  | leaf found => .leaf found.token

def start : Place → Nat
  | node found => found.start
  | leaf found => found.start

mutual

/-- Wherever a tree begins, the walk through it visits the same trees at the same distances. -/
theorem map_preorder (offset : Nat) (above otherAbove : List Frame) (begin : Nat) :
    (tree : Tree) →
    (preorder above begin tree).map (fun place => (place.tree, offset + place.start)) =
      (preorder otherAbove (offset + begin) tree).map fun place => (place.tree, place.start)
  | .leaf token => by simp [preorder, Place.tree, Place.start]
  | .node kind children => by
      have below := map_preorderOf offset kind kind begin (offset + begin) above otherAbove [] []
        begin children
      simpa [preorder, Place.tree, Place.start, Node.tree] using below

theorem map_preorderOf (offset : Nat) (kind otherKind : NodeKind) (origin otherOrigin : Nat)
    (above otherAbove : List Frame) (before otherBefore : List Tree) (begin : Nat) :
    (row : List Tree) →
    (preorderOf kind origin above before begin row).map
        (fun place => (place.tree, offset + place.start)) =
      (preorderOf otherKind otherOrigin otherAbove otherBefore (offset + begin) row).map
        fun place => (place.tree, place.start)
  | [] => rfl
  | first :: rest => by
      simp only [preorderOf, List.map_append, Nat.add_assoc]
      rw [map_preorder offset _ _ begin first, map_preorderOf offset kind otherKind origin otherOrigin
        above otherAbove _ _ (begin + first.width) rest]

end

end Place

namespace Parse

theorem standsAlone_root (text : Text) :
    (ofText text).root.tree.Everywhere StandsAlone :=
  ⟨standsAlone_of_not_item rfl _, Grammar.separable_sourceFile⟩

/-- The source of an item without errors is a document of its own, whose only node is that item. -/
theorem ofText_text {text : Text} {node : Node} (visited : node ∈ (ofText text).root.descendants)
    (clean : node.hasError = false) (item : node.kind.isItem = true) :
    ofText node.text = ⟨[node.tree], [], false⟩ := by
  obtain ⟨before, after, split, -⟩ := Node.within_of_descendant visited
  rw [tokens_root] at split
  have tokens : Lexer.tokenize node.text = node.tree.tokens :=
    Lexer.tokenize_textOf_middle split
  rw [ofText, tokens]
  exact Node.holds_of_descendant (standsAlone_root text) visited clean item

/-- An expression or a declaration without errors that is cut out of a document is parsed without
errors into the same tree, all of it moved by where it began. -/
theorem childNodes_source {text : Text} {node : Node}
    (visited : node ∈ (ofText text).root.descendants) (clean : node.hasError = false)
    (item : node.kind.isItem = true) :
    ∃ source, Document.source? ⟨text, ofText text, .ofText text⟩ node = some source ∧
      (ofText source).errors = [] ∧ (ofText source).tooDeep = false ∧
      ∃ child, (ofText source).root.childNodes = [child] ∧ child.tree = node.tree ∧
        child.walk.map (fun place => (place.tree, node.start + place.start)) =
          node.walk.map (fun place => (place.tree, place.start)) := by
  have parsed := ofText_text visited clean item
  refine ⟨node.text, ?_, by rw [parsed], by rw [parsed], ?_⟩
  · have slice := Node.slice?_text visited rfl
    rwa [text_root] at slice
  · refine ⟨⟨node.kind, node.children, 0, [⟨.sourceFile, 0, [], []⟩]⟩, ?_, rfl, ?_⟩
    · rw [parsed]
      rfl
    · exact Place.map_preorder node.start _ _ 0 node.tree

/-- An application that goes on with another argument, in a list without its closing bracket. -/
theorem childNodes_source_unclosed :
    ∃ node ∈ (ofText ['[', 'f', ' ', '(', 'a', '-', '>', '1', ')', ' ', 'b']).root.descendants,
      (node.kind = .application ∧ node.start = 1 ∧ node.stop = 9) ∧
        ∃ source, Document.source? ⟨['[', 'f', ' ', '(', 'a', '-', '>', '1', ')', ' ', 'b'],
            ofText ['[', 'f', ' ', '(', 'a', '-', '>', '1', ')', ' ', 'b'],
            .ofText ['[', 'f', ' ', '(', 'a', '-', '>', '1', ')', ' ', 'b']⟩ node = some source ∧
          (ofText source).errors = [] ∧
          ∃ child, (ofText source).root.childNodes = [child] ∧ child.tree = node.tree := by
  have found : ∃ node ∈
      (ofText ['[', 'f', ' ', '(', 'a', '-', '>', '1', ')', ' ', 'b']).root.descendants,
      (node.kind = .application ∧ node.start = 1 ∧ node.stop = 9) ∧ node.hasError = false := by
    decide +kernel
  obtain ⟨node, visited, spot, clean⟩ := found
  have item : node.kind.isItem = true := by
    rw [spot.1]
    rfl
  obtain ⟨source, slice, errors, -, child, single, same, -⟩ := childNodes_source visited clean item
  exact ⟨node, visited, spot, source, slice, errors, child, single, same⟩

end Parse

end Scrapscript
