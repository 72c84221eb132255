import Scrapscript.Proofs.Tree.Nesting

/-!
The tokens at an offset. The search that goes down into a tree and passes over what is empty or away
from the offset finds the tokens that a look at every token finds.
-/

namespace Scrapscript

/-- Whether an offset lies in a token or at an end of it. A token without characters has none. -/
def Leaf.touches (offset : Nat) (leaf : Leaf) : Bool :=
  decide (0 < leaf.token.width) && decide (leaf.start ≤ offset) && decide (offset ≤ leaf.stop)

theorem Leaf.touches_iff {offset : Nat} {leaf : Leaf} :
    leaf.touches offset = true ↔
      0 < leaf.token.width ∧ leaf.start ≤ offset ∧ offset ≤ leaf.stop := by
  simp [touches, and_assoc]

namespace Place

/-- The tokens that a walk visits are within the span of the tree. -/
theorem leaf_span_preorder {above : List Frame} {start : Nat} {tree : Tree} {leaf : Leaf}
    (visited : leaf ∈ (preorder above start tree).filterMap leaf?) :
    start ≤ leaf.start ∧ leaf.stop ≤ start + tree.width := by
  have listed : (leaf.token, leaf.start) ∈ Token.located start tree.tokens := by
    rw [← located_preorder above]
    exact List.mem_map_of_mem visited
  obtain ⟨before, after, tokens, begins⟩ := Token.exists_of_mem_located listed
  rw [Leaf.stop, begins, Tree.width_eq, tokens, Token.widthOf_append, Token.widthOf]
  omega

mutual

theorem touching_eq_filter (offset : Nat) (above : List Frame) (start : Nat) : (tree : Tree) →
    0 < tree.width ∧ start ≤ offset ∧ offset ≤ start + tree.width →
    touching offset above start tree =
      ((preorder above start tree).filterMap leaf?).filter (Leaf.touches offset)
  | .leaf token, here => by
      have touched : Leaf.touches offset ⟨token, start, above⟩ = true := Leaf.touches_iff.mpr here
      simp [touching, preorder, leaf?, touched]
  | .node kind children, _ => by
      simpa [touching, preorder, List.filterMap_cons, leaf?] using
        touchingOf_eq_filter offset kind start above [] start children

theorem touchingOf_eq_filter (offset : Nat) (kind : NodeKind) (origin : Nat) (above : List Frame)
    (before : List Tree) (start : Nat) : (row : List Tree) →
    touchingOf offset kind origin above before start row =
      ((preorderOf kind origin above before start row).filterMap leaf?).filter
        (Leaf.touches offset)
  | [] => rfl
  | first :: rest => by
      have others := touchingOf_eq_filter offset kind origin above (first :: before)
        (start + first.width) rest
      simp only [touchingOf, preorderOf, List.filterMap_append, List.filter_append, others]
      split
      · rename_i here
        rw [touching_eq_filter offset _ start first here]
      · -- What is passed over has no token at the offset.
        rename_i away
        have none : ((preorder (⟨kind, origin, before, rest⟩ :: above) start first).filterMap
            leaf?).filter (Leaf.touches offset) = [] := by
          rw [List.filter_eq_nil_iff]
          intro leaf visited touched
          obtain ⟨wide, begun, unfinished⟩ := Leaf.touches_iff.mp touched
          obtain ⟨begins, ends⟩ := leaf_span_preorder visited
          rw [Leaf.stop] at ends unfinished
          exact away ⟨by omega, by omega, by omega⟩
        rw [none, List.nil_append]

end

end Place

/-- The search finds the tokens that touch the offset. -/
theorem Node.touching_eq_filter (node : Node) (offset : Nat) :
    node.touching offset = node.leaves.filter (Leaf.touches offset) := by
  have inside := Place.touchingOf_eq_filter offset node.kind node.start node.above [] node.start
    node.children
  simpa [touching, tree, Place.touching, leaves, walk, Place.preorder, List.filterMap_cons,
    Place.leaf?] using inside

theorem Node.mem_touching {node : Node} {offset : Nat} {leaf : Leaf} :
    leaf ∈ node.touching offset ↔ leaf ∈ node.leaves ∧ leaf.touches offset = true := by
  rw [touching_eq_filter, List.mem_filter]

end Scrapscript
