import Scrapscript.Tree.Node
import Scrapscript.Proofs.Tree.Row

/-!
Nodes and leaves in their places. What the walk through a tree visits is related here to the tree
itself: the leaves it visits are the tree's tokens at their offsets, and every node it visits spans
a run of them.
-/

namespace Scrapscript

theorem Token.located_append (start : Nat) (first second : List Token) :
    located start (first ++ second) =
      located start first ++ located (start + widthOf first) second := by
  induction first generalizing start with
  | nil => simp [located, widthOf]
  | cons token rest inductionHypothesis =>
      simp [located, widthOf, inductionHypothesis, Nat.add_assoc]

theorem Token.map_fst_located (start : Nat) (tokens : List Token) :
    (located start tokens).map Prod.fst = tokens := by
  induction tokens generalizing start with
  | nil => rfl
  | cons token rest inductionHypothesis =>
      rw [located, List.map_cons, inductionHypothesis]

namespace Place

theorem mem_filterMap_node? {places : List Place} {found : Node} :
    found ∈ places.filterMap node? ↔ node found ∈ places := by
  constructor
  · intro listed
    obtain ⟨place, visited, isNode⟩ := List.mem_filterMap.mp listed
    cases place with
    | node => rwa [← Option.some.inj isNode]
    | leaf => contradiction
  · intro visited
    exact List.mem_filterMap.mpr ⟨_, visited, rfl⟩

theorem mem_filterMap_leaf? {places : List Place} {found : Leaf} :
    found ∈ places.filterMap leaf? ↔ leaf found ∈ places := by
  constructor
  · intro listed
    obtain ⟨place, visited, isLeaf⟩ := List.mem_filterMap.mp listed
    cases place with
    | node => contradiction
    | leaf => rwa [← Option.some.inj isLeaf]
  · intro visited
    exact List.mem_filterMap.mpr ⟨_, visited, rfl⟩

mutual

theorem located_preorder (above : List Frame) (start : Nat) : (tree : Tree) →
    ((preorder above start tree).filterMap leaf?).map (fun leaf => (leaf.token, leaf.start)) =
      Token.located start tree.tokens
  | .leaf token => by simp [preorder, leaf?, Tree.tokens, Token.located]
  | .node kind children => by
      simpa [preorder, leaf?, Tree.tokens, List.filterMap_cons] using
        located_preorderOf kind start above [] start children

theorem located_preorderOf (kind : NodeKind) (origin : Nat) (above : List Frame)
    (before : List Tree) (start : Nat) : (row : List Tree) →
    ((preorderOf kind origin above before start row).filterMap leaf?).map
        (fun leaf => (leaf.token, leaf.start)) =
      Token.located start (Tree.tokensOf row)
  | [] => rfl
  | first :: rest => by
      simp only [preorderOf, List.filterMap_append, List.map_append, Tree.tokensOf,
        Token.located_append, located_preorder, located_preorderOf, Tree.width_eq]

end

mutual

theorem node_within_preorder (above : List Frame) (start : Nat) (node : Node) :
    (tree : Tree) → node ∈ (preorder above start tree).filterMap node? →
    ∃ before after, tree.tokens = before ++ node.tree.tokens ++ after ∧
      node.start = start + Token.widthOf before
  | .leaf token, visited => by simp [preorder, node?] at visited
  | .node kind children, visited => by
      simp only [preorder, List.filterMap_cons, node?, List.mem_cons] at visited
      rcases visited with rfl | inside
      · exact ⟨[], [], by simp [Node.tree], by simp [Token.widthOf]⟩
      · simpa [Tree.tokens] using
          node_within_preorderOf kind start above [] start node children inside

theorem node_within_preorderOf (kind : NodeKind) (origin : Nat) (above : List Frame)
    (earlier : List Tree) (start : Nat) (node : Node) : (row : List Tree) →
    node ∈ (preorderOf kind origin above earlier start row).filterMap node? →
    ∃ before after, Tree.tokensOf row = before ++ node.tree.tokens ++ after ∧
      node.start = start + Token.widthOf before
  | [], visited => by simp [preorderOf] at visited
  | first :: rest, visited => by
      simp only [preorderOf, List.filterMap_append, List.mem_append] at visited
      rcases visited with inFirst | inRest
      · obtain ⟨before, after, tokens, begins⟩ := node_within_preorder _ _ node first inFirst
        exact ⟨before, after ++ Tree.tokensOf rest, by simp [Tree.tokensOf, tokens], begins⟩
      · obtain ⟨before, after, tokens, begins⟩ :=
          node_within_preorderOf _ _ _ _ _ node rest inRest
        refine ⟨first.tokens ++ before, after, by simp [Tree.tokensOf, tokens], ?_⟩
        rw [begins, Token.widthOf_append, Tree.width_eq, Nat.add_assoc]

end

mutual

/-- What the walk visits is the tree itself or a child of a node that the walk visits. -/
theorem parent_preorder (above : List Frame) (start : Nat) (place : Place) : (tree : Tree) →
    place ∈ preorder above start tree →
    place = ofTree above start tree ∨
      ∃ parent, node parent ∈ preorder above start tree ∧ place ∈ parent.places
  | .leaf token, visited => .inl (by simpa [preorder, ofTree] using visited)
  | .node kind children, visited => by
      rw [preorder, List.mem_cons] at visited
      rcases visited with rfl | inside
      · exact .inl rfl
      · right
        rcases parent_preorderOf kind start above [] start place children inside with
          direct | ⟨parent, below, listed⟩
        · exact ⟨⟨kind, children, start, above⟩, by simp [preorder], direct⟩
        · exact ⟨parent, by simp [preorder, below], listed⟩

theorem parent_preorderOf (kind : NodeKind) (origin : Nat) (above : List Frame)
    (before : List Tree) (start : Nat) (place : Place) : (siblings : List Tree) →
    place ∈ preorderOf kind origin above before start siblings →
    place ∈ row kind origin above before start siblings ∨
      ∃ parent, node parent ∈ preorderOf kind origin above before start siblings ∧
        place ∈ parent.places
  | [], visited => by simp [preorderOf] at visited
  | first :: rest, visited => by
      rw [preorderOf, List.mem_append] at visited
      rcases visited with inFirst | inRest
      · rcases parent_preorder _ _ place first inFirst with rfl | ⟨parent, below, listed⟩
        · exact .inl (.head _)
        · exact .inr ⟨parent, by simp [preorderOf, below], listed⟩
      · rcases parent_preorderOf _ _ _ _ _ place rest inRest with
          direct | ⟨parent, below, listed⟩
        · exact .inl (.tail _ direct)
        · exact .inr ⟨parent, by simp [preorderOf, below], listed⟩

end

theorem filterMap_leaf?_row (kind : NodeKind) (origin : Nat) (above : List Frame)
    (before : List Tree) (start : Nat) (siblings : List Tree) :
    ((row kind origin above before start siblings).filterMap leaf?).map (Tree.leaf ·.token) =
      siblings.filter (! ·.isNode) := by
  induction siblings generalizing before start with
  | nil => rfl
  | cons first rest inductionHypothesis =>
      cases first <;>
        simp [row, ofTree, leaf?, Tree.isNode, List.filterMap_cons, inductionHypothesis]

theorem filterMap_node?_row (kind : NodeKind) (origin : Nat) (above : List Frame)
    (before : List Tree) (start : Nat) (siblings : List Tree) :
    ((row kind origin above before start siblings).filterMap node?).map Node.tree =
      siblings.filter Tree.isNode := by
  induction siblings generalizing before start with
  | nil => rfl
  | cons first rest inductionHypothesis =>
      cases first <;>
        simp [row, ofTree, node?, Node.tree, Tree.isNode, List.filterMap_cons, List.filter_cons,
          inductionHypothesis]

/-- The parent of a token among some siblings. -/
theorem parent?_of_row {kind : NodeKind} {origin : Nat} {above : List Frame} {leaf : Leaf}
    (before : List Tree) (start : Nat) (siblings : List Tree)
    (listed : leaf ∈ (row kind origin above before start siblings).filterMap leaf?) :
    leaf.parent? = some ⟨kind, before.reverse ++ siblings, origin, above⟩ := by
  induction siblings generalizing before start with
  | nil => simp [row] at listed
  | cons first rest inductionHypothesis =>
      have later (inRest : leaf ∈ (row kind origin above (first :: before) (start + first.width)
          rest).filterMap leaf?) :
          leaf.parent? = some ⟨kind, before.reverse ++ first :: rest, origin, above⟩ := by
        simpa using inductionHypothesis _ _ inRest
      cases first with
      | node => exact later (by simpa [row, ofTree, List.filterMap_cons, leaf?] using listed)
      | leaf token =>
          simp only [row, ofTree, List.filterMap_cons, leaf?, List.mem_cons] at listed
          rcases listed with rfl | inRest
          · rfl
          · exact later inRest

end Place

namespace Tree

mutual

/-- A condition on every node of a tree. -/
def Everywhere (holds : NodeKind → List Tree → Prop) : Tree → Prop
  | leaf _ => True
  | node kind children => holds kind children ∧ EverywhereIn holds children

def EverywhereIn (holds : NodeKind → List Tree → Prop) : List Tree → Prop
  | [] => True
  | first :: rest => first.Everywhere holds ∧ EverywhereIn holds rest

end

section

variable (holds : NodeKind → List Tree → Prop) [∀ kind row, Decidable (holds kind row)]

mutual

instance decidableEverywhere : (tree : Tree) → Decidable (tree.Everywhere holds)
  | leaf _ => .isTrue trivial
  | node kind children =>
      have := decidableEverywhereIn children
      inferInstanceAs (Decidable (holds kind children ∧ EverywhereIn holds children))

instance decidableEverywhereIn : (row : List Tree) → Decidable (EverywhereIn holds row)
  | [] => .isTrue trivial
  | first :: rest =>
      have := decidableEverywhere first
      have := decidableEverywhereIn rest
      inferInstanceAs (Decidable (first.Everywhere holds ∧ EverywhereIn holds rest))

end

end

variable {holds : NodeKind → List Tree → Prop}

theorem everywhereIn_append (first second : List Tree) :
    EverywhereIn holds (first ++ second) ↔
      EverywhereIn holds first ∧ EverywhereIn holds second := by
  induction first with
  | nil => simp [EverywhereIn]
  | cons tree rest inductionHypothesis =>
      simp only [List.cons_append, EverywhereIn, inductionHypothesis, and_assoc]

theorem everywhere_of_mem {row : List Tree} {tree : Tree} (everywhere : EverywhereIn holds row)
    (membership : tree ∈ row) : tree.Everywhere holds := by
  induction row with
  | nil => contradiction
  | cons first rest inductionHypothesis =>
      rcases List.mem_cons.mp membership with rfl | later
      · exact everywhere.1
      · exact inductionHypothesis everywhere.2 later

theorem everywhereIn_leaves (tokens : List Token) : EverywhereIn holds (leaves tokens) := by
  induction tokens with
  | nil => trivial
  | cons token rest inductionHypothesis => exact ⟨trivial, inductionHypothesis⟩

theorem everywhereIn_withoutTrivia {row : List Tree}
    (everywhere : EverywhereIn holds row) : EverywhereIn holds (withoutTrivia row) := by
  induction row with
  | nil => trivial
  | cons tree rest inductionHypothesis =>
      have others := inductionHypothesis everywhere.2
      rw [withoutTrivia, List.filter_cons]
      split
      · exact ⟨everywhere.1, others⟩
      · exact others

section

variable {also both : NodeKind → List Tree → Prop}

mutual

/-- Two conditions on every node, taken together at each of them. -/
theorem everywhere_of_both (joined : ∀ kind row, holds kind row → also kind row → both kind row) :
    (tree : Tree) → tree.Everywhere holds → tree.Everywhere also → tree.Everywhere both
  | leaf _, _, _ => trivial
  | node kind children, first, second =>
      ⟨joined kind children first.1 second.1,
        everywhereIn_of_both joined children first.2 second.2⟩

theorem everywhereIn_of_both (joined : ∀ kind row, holds kind row → also kind row → both kind row) :
    (row : List Tree) → EverywhereIn holds row → EverywhereIn also row → EverywhereIn both row
  | [], _, _ => trivial
  | tree :: rest, first, second =>
      ⟨everywhere_of_both joined tree first.1 second.1,
        everywhereIn_of_both joined rest first.2 second.2⟩

end

end

theorem mem_tokensOf_of_leaf {row : List Tree} {token : Token} (listed : leaf token ∈ row) :
    token ∈ tokensOf row := by
  induction row with
  | nil => contradiction
  | cons first rest inductionHypothesis =>
      rw [tokensOf, List.mem_append]
      rcases List.mem_cons.mp listed with rfl | later
      · exact .inl (.head _)
      · exact .inr (inductionHypothesis later)

section

variable {holds : NodeKind → List Tree → Prop} {accepts : Token → Prop}

mutual

/-- What holds of the tokens right under each node holds of all tokens below a node. -/
theorem forall_tokens
    (direct : ∀ kind row, holds kind row → ∀ token, leaf token ∈ row → accepts token) :
    (tree : Tree) → tree.Everywhere holds → tree.isNode = true →
    ∀ token ∈ tree.tokens, accepts token
  | .leaf _, _, isNode => by contradiction
  | .node kind row, everywhere, _ =>
      forall_tokensOf direct row everywhere.2 (direct kind row everywhere.1)

theorem forall_tokensOf
    (direct : ∀ kind row, holds kind row → ∀ token, leaf token ∈ row → accepts token) :
    (row : List Tree) → EverywhereIn holds row → (∀ token, leaf token ∈ row → accepts token) →
    ∀ token ∈ tokensOf row, accepts token
  | [], _, _ => by simp [tokensOf]
  | first :: rest, everywhere, leafs => by
      intro token listed
      rw [tokensOf, List.mem_append] at listed
      rcases listed with inFirst | inRest
      · cases first with
        | leaf only =>
            obtain rfl : token = only := List.mem_singleton.mp inFirst
            exact leafs token (.head _)
        | node kind children =>
            exact forall_tokens direct (.node kind children) everywhere.1 rfl token inFirst
      · exact forall_tokensOf direct rest everywhere.2
          (fun other later => leafs other (.tail _ later)) token inRest

end

end

end Tree

namespace Place

variable {holds : NodeKind → List Tree → Prop}

mutual

theorem everywhere_preorder (above : List Frame) (start : Nat) (node : Node) :
    (tree : Tree) → tree.Everywhere holds → node ∈ (preorder above start tree).filterMap node? →
    node.tree.Everywhere holds
  | .leaf token, _, visited => by simp [preorder, node?] at visited
  | .node kind children, everywhere, visited => by
      simp only [preorder, List.filterMap_cons, node?, List.mem_cons] at visited
      rcases visited with rfl | inside
      · exact everywhere
      · exact everywhere_preorderOf kind start above [] start node children everywhere.2 inside

theorem everywhere_preorderOf (kind : NodeKind) (origin : Nat) (above : List Frame)
    (earlier : List Tree) (start : Nat) (node : Node) : (row : List Tree) →
    Tree.EverywhereIn holds row →
    node ∈ (preorderOf kind origin above earlier start row).filterMap node? →
    node.tree.Everywhere holds
  | [], _, visited => by simp [preorderOf] at visited
  | first :: rest, everywhere, visited => by
      simp only [preorderOf, List.filterMap_append, List.mem_append] at visited
      rcases visited with inFirst | inRest
      · exact everywhere_preorder _ _ node first everywhere.1 inFirst
      · exact everywhere_preorderOf _ _ _ _ _ node rest everywhere.2 inRest

end

mutual

theorem everywhere_of_preorder (above : List Frame) (start : Nat) : (tree : Tree) →
    (∀ node ∈ (preorder above start tree).filterMap node?, holds node.kind node.children) →
    tree.Everywhere holds
  | .leaf _, _ => trivial
  | .node kind children, each => by
      simp only [preorder, List.filterMap_cons, node?, List.forall_mem_cons] at each
      exact ⟨each.1, everywhereIn_of_preorderOf kind start above [] start children each.2⟩

theorem everywhereIn_of_preorderOf (kind : NodeKind) (origin : Nat) (above : List Frame)
    (before : List Tree) (start : Nat) : (row : List Tree) →
    (∀ node ∈ (preorderOf kind origin above before start row).filterMap node?,
      holds node.kind node.children) →
    Tree.EverywhereIn holds row
  | [], _ => trivial
  | first :: rest, each => by
      simp only [preorderOf, List.filterMap_append, List.forall_mem_append] at each
      exact ⟨everywhere_of_preorder _ _ first each.1,
        everywhereIn_of_preorderOf _ _ _ _ _ rest each.2⟩

end

end Place

open Scrapscript.Tree (withoutTrivia isToken isTokenOf nodes)

namespace Node

theorem located_leaves (node : Node) :
    node.leaves.map (fun leaf => (leaf.token, leaf.start)) =
      Token.located node.start node.tree.tokens :=
  Place.located_preorder node.above node.start node.tree

/-- The leaves of a node hold its tokens. -/
theorem token_leaves (node : Node) : node.leaves.map Leaf.token = node.tree.tokens := by
  have located := congrArg (List.map Prod.fst) node.located_leaves
  rwa [Token.map_fst_located, List.map_map] at located

theorem within_of_descendant {node inner : Node} (visited : inner ∈ node.descendants) :
    ∃ before after, node.tree.tokens = before ++ inner.tree.tokens ++ after ∧
      inner.start = node.start + Token.widthOf before :=
  Place.node_within_preorder node.above node.start inner node.tree visited

theorem everywhere_of_descendant {holds : NodeKind → List Tree → Prop} {node inner : Node}
    (everywhere : node.tree.Everywhere holds) (visited : inner ∈ node.descendants) :
    inner.tree.Everywhere holds :=
  Place.everywhere_preorder node.above node.start inner node.tree everywhere visited

theorem holds_of_descendant {holds : NodeKind → List Tree → Prop} {node inner : Node}
    (everywhere : node.tree.Everywhere holds) (visited : inner ∈ node.descendants) :
    holds inner.kind inner.children :=
  (everywhere_of_descendant everywhere visited).1

/-- What holds of each node that is visited holds everywhere. -/
theorem everywhere_of_forall {holds : NodeKind → List Tree → Prop} {node : Node}
    (each : ∀ inner ∈ node.descendants, holds inner.kind inner.children) :
    node.tree.Everywhere holds :=
  Place.everywhere_of_preorder node.above node.start node.tree each

theorem mem_descendants_iff {node inner : Node} :
    inner ∈ node.descendants ↔ .node inner ∈ node.walk :=
  Place.mem_filterMap_node?

theorem mem_leaves_iff {node : Node} {leaf : Leaf} : leaf ∈ node.leaves ↔ .leaf leaf ∈ node.walk :=
  Place.mem_filterMap_leaf?

theorem mem_childNodes_iff {node inner : Node} :
    inner ∈ node.childNodes ↔ .node inner ∈ node.places :=
  Place.mem_filterMap_node?

theorem mem_childLeaves_iff {node : Node} {leaf : Leaf} :
    leaf ∈ node.childLeaves ↔ .leaf leaf ∈ node.places :=
  Place.mem_filterMap_leaf?

theorem parent_of_leaf {node : Node} {leaf : Leaf} (visited : leaf ∈ node.leaves) :
    ∃ parent ∈ node.descendants, leaf ∈ parent.childLeaves := by
  rcases Place.parent_preorder node.above node.start _ node.tree (mem_leaves_iff.mp visited) with
    itself | ⟨parent, below, listed⟩
  · simp [tree, Place.ofTree] at itself
  · exact ⟨parent, mem_descendants_iff.mpr below, mem_childLeaves_iff.mpr listed⟩

/-- The parent of a leaf is among the nodes that are visited with it. -/
theorem exists_parent {node : Node} {leaf : Leaf} (visited : leaf ∈ node.leaves) :
    ∃ parent ∈ node.descendants, leaf.parent? = some parent := by
  obtain ⟨parent, below, listed⟩ := parent_of_leaf visited
  exact ⟨parent, below, Place.parent?_of_row [] _ _ listed⟩

/-- The children that are tokens, out of their places. -/
theorem map_childLeaves (node : Node) :
    node.childLeaves.map (Tree.leaf ·.token) = node.children.filter (! ·.isNode) :=
  Place.filterMap_leaf?_row node.kind node.start node.above [] node.start node.children

/-- The children that are nodes, out of their places. -/
theorem map_childNodes (node : Node) :
    node.childNodes.map tree = node.children.filter Tree.isNode :=
  Place.filterMap_node?_row node.kind node.start node.above [] node.start node.children

theorem tree_firstNode? (node : Node) :
    node.firstNode?.map tree = (nodes node.children).head? := by
  rw [firstNode?, ← List.head?_map, map_childNodes]
  rfl

theorem tree_secondNode? (node : Node) :
    node.secondNode?.map tree = (nodes node.children).tail.head? := by
  rw [secondNode?, ← List.head?_map, List.map_tail, map_childNodes]
  rfl

theorem isTypedName_tree (node : Node) :
    node.tree.isTypedName = (node.kind == .identifier
      || node.kind == .ascription && node.firstNode?.any (·.kind == .identifier)) := by
  have first : node.firstNode?.any (·.kind == .identifier) =
      (nodes node.children).head?.any (Tree.isNodeOf (· == .identifier)) := by
    rw [← node.tree_firstNode?, Option.any_map]
    rfl
  rw [first]
  cases kind : node.kind <;> simp [tree, kind, Tree.isTypedName]

theorem length_childNodes (node : Node) :
    node.childNodes.length = (nodes node.children).length := by
  rw [← List.length_map (f := tree), map_childNodes]
  rfl

/-- The second of two nodes with a token between them. -/
theorem exists_secondNode {node : Node} {left right : Tree} {symbol : Token}
    (row : withoutTrivia node.children = [left, .leaf symbol, right])
    (first : left.isNode = true) (second : right.isNode = true) :
    ∃ found, node.secondNode? = some found ∧ found.tree = right := by
  apply Option.map_eq_some_iff.mp
  rw [node.tree_secondNode?, ← Tree.nodes_withoutTrivia, row]
  simp [Tree.nodes_cons, first, second]

/-- A node has a token of a kind exactly if one of its children is such a token. -/
theorem isSome_tokenOf? (node : Node) (kind : TokenKind) :
    (node.tokenOf? kind).isSome = node.children.any (isToken kind) := by
  have leaves : (node.childLeaves.map (Tree.leaf ·.token)).any (isToken kind) =
      node.children.any (isToken kind) := by
    rw [map_childLeaves, List.any_filter]
    apply congrArg (List.any node.children)
    funext tree
    cases tree with
    | leaf => simp [Tree.isNode]
    | node => simp [isToken, isTokenOf]
  rw [tokenOf?, List.isSome_find?, ← leaves, List.any_map]
  rfl

theorem stop_eq (node : Node) : node.stop = node.start + Token.widthOf node.tree.tokens := by
  simp [stop, tree, Tree.tokens, Tree.widthOf_eq]

end Node

end Scrapscript
