import Scrapscript.Document
import Scrapscript.Proofs.Grammar
import Scrapscript.Proofs.Text.Slice
import Scrapscript.Proofs.Token.Lexer
import Scrapscript.Proofs.Tree.Place

/-!
A parse loses nothing: the tree of a text holds the tokens of the text in their places, so that
every node spells the stretch of the text that it spans.
-/

namespace Scrapscript

namespace Node

theorem flatMap_leaves (node : Node) : node.leaves.flatMap Leaf.text = node.text := by
  have located := congrArg (List.map Prod.fst) node.located_leaves
  rw [Token.map_fst_located, List.map_map] at located
  calc
    node.leaves.flatMap Leaf.text = Token.textOf (node.leaves.map Leaf.token) := by
      rw [Token.textOf, List.flatMap_map]
      rfl
    _ = node.text := congrArg Token.textOf located

/-- What the root of a node spells, around what the node spells. -/
theorem exists_text_around {root node : Node} (visited : node ∈ root.descendants)
    (outermost : root.start = 0) : ∃ before after, root.text = before ++ node.text ++ after ∧
      node.start = before.bytes ∧ node.stop = before.bytes + node.text.bytes := by
  obtain ⟨before, after, split, start⟩ := within_of_descendant visited
  have begins : node.start = (Token.textOf before).bytes := by
    rw [start, outermost, Nat.zero_add, Token.bytes_textOf]
  refine ⟨Token.textOf before, Token.textOf after, ?_, begins, ?_⟩
  · rw [text, Tree.text, split, Token.textOf_append, Token.textOf_append]
    rfl
  · rw [stop_eq, begins, ← Token.bytes_textOf node.tree.tokens]
    rfl

/-- What a node spells is cut out of what its root spells by its offsets. -/
theorem slice?_text {root node : Node} (visited : node ∈ root.descendants)
    (outermost : root.start = 0) : root.text.slice? node.start node.stop = some node.text := by
  obtain ⟨before, after, spelled, begins, ends⟩ := exists_text_around visited outermost
  rw [spelled, begins, ends]
  exact Text.slice?_append _ _ _

end Node

namespace Parse

theorem tokens_root (text : Text) : (ofText text).root.tree.tokens = Lexer.tokenize text := by
  obtain ⟨rest, placed, exhausted, -⟩ := ofTokens_placed (Lexer.tokenize text)
  have tokens := placed.tokens
  rwa [exhausted, List.append_nil, Cursor.remaining_ofTokens] at tokens

theorem text_root (text : Text) : (ofText text).root.text = text := by
  rw [Node.text, Tree.text, tokens_root, Lexer.textOf_tokenize]

/-- The tree of a text holds the text's tokens, each in its place. Its root spells the text, and
each node spells the stretch that it spans. -/
theorem lossless (text : Text) :
    (ofText text).root.leaves.map (fun leaf => (leaf.token, leaf.start)) =
        Token.located 0 (Lexer.tokenize text) ∧
      (ofText text).root.text = text ∧
      ∀ node ∈ (ofText text).root.descendants,
        Document.source? ⟨text, ofText text, .ofText text⟩ node =
          some (node.leaves.flatMap Leaf.text) := by
  refine ⟨?_, text_root text, ?_⟩
  · rw [Node.located_leaves, tokens_root]
    rfl
  · intro node visited
    have slice := Node.slice?_text visited rfl
    rw [text_root] at slice
    rw [Node.flatMap_leaves]
    exact slice

end Parse

end Scrapscript
