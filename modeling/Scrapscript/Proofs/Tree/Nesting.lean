import Scrapscript.Proofs.Tree.Place

/-!
Nodes inside of others. The walk through a node that is visited is part of the whole walk, and the
nodes around a visited node are visited too. Of two visited nodes the later one is inside of the
earlier one, or starts where that one has stopped.
-/

namespace Scrapscript

theorem Token.exists_of_mem_located {start offset : Nat} {tokens : List Token} {token : Token}
    (listed : (token, offset) ∈ located start tokens) :
    ∃ before after, tokens = before ++ token :: after ∧ offset = start + widthOf before := by
  induction tokens generalizing start with
  | nil => simp [located] at listed
  | cons first rest inductionHypothesis =>
      rw [located, List.mem_cons] at listed
      rcases listed with same | later
      · obtain ⟨rfl, rfl⟩ := Prod.mk.inj same
        exact ⟨[], rest, rfl, rfl⟩
      · obtain ⟨before, after, rfl, rfl⟩ := inductionHypothesis later
        exact ⟨first :: before, after, rfl, by simp [widthOf, Nat.add_assoc]⟩

theorem Token.ordered_located (start : Nat) {tokens : List Token}
    (positive : ∀ token ∈ tokens, 0 < token.width) :
    (located start tokens).Pairwise fun earlier later => earlier.2 < later.2 := by
  induction tokens generalizing start with
  | nil => exact .nil
  | cons token rest inductionHypothesis =>
      refine .cons ?_ (inductionHypothesis _ fun other listed => positive other (.tail _ listed))
      intro later listed
      obtain ⟨before, after, -, offset⟩ := exists_of_mem_located listed
      have width := positive token (.head _)
      show start < later.2
      omega

namespace Tree

mutual

/-- In a tree without errors nothing has errors. -/
theorem everywhere_clean : (tree : Tree) → tree.hasError = false →
    tree.Everywhere fun kind children => (node kind children).hasError = false
  | leaf _, _ => trivial
  | node _ children, clean =>
      ⟨clean, everywhereIn_clean children ((Bool.or_eq_false_iff ..).mp clean).2⟩

theorem everywhereIn_clean : (row : List Tree) → hasErrorIn row = false →
    EverywhereIn (fun kind children => (node kind children).hasError = false) row
  | [], _ => trivial
  | first :: rest, clean =>
      have parts := (Bool.or_eq_false_iff ..).mp clean
      ⟨everywhere_clean first parts.1, everywhereIn_clean rest parts.2⟩

end

end Tree

namespace Place

/-- The places in a row: one for each tree, which knows its siblings on either side. -/
theorem mem_row_iff {kind : NodeKind} {origin : Nat} {above : List Frame} {before : List Tree}
    {start : Nat} {siblings : List Tree} {place : Place} :
    place ∈ row kind origin above before start siblings ↔
      ∃ earlier tree later, siblings = earlier ++ tree :: later ∧
        place = ofTree (⟨kind, origin, earlier.reverse ++ before, later⟩ :: above)
          (start + Tree.widthOf earlier) tree := by
  induction siblings generalizing before start with
  | nil => simp [row]
  | cons first rest inductionHypothesis =>
      rw [row, List.mem_cons, inductionHypothesis]
      constructor
      · rintro (rfl | ⟨earlier, tree, later, rfl, rfl⟩)
        · exact ⟨[], first, rest, rfl, by simp [Tree.widthOf]⟩
        · exact ⟨first :: earlier, tree, later, rfl, by simp [Tree.widthOf, Nat.add_assoc]⟩
      · rintro ⟨earlier, tree, later, split, rfl⟩
        cases earlier with
        | nil =>
            obtain ⟨rfl, rfl⟩ := List.cons.inj split
            exact .inl (by simp [Tree.widthOf])
        | cons _ earlier =>
            obtain ⟨rfl, rfl⟩ := List.cons.inj split
            exact .inr ⟨earlier, tree, later, rfl, by simp [Tree.widthOf, Nat.add_assoc]⟩

theorem ofTree_mem_preorder (above : List Frame) (start : Nat) (tree : Tree) :
    ofTree above start tree ∈ preorder above start tree := by
  cases tree with
  | leaf => exact .head _
  | node => exact .head _

theorem row_subset_preorderOf (kind : NodeKind) (origin : Nat) (above : List Frame)
    (before : List Tree) (start : Nat) (siblings : List Tree) :
    row kind origin above before start siblings ⊆
      preorderOf kind origin above before start siblings := by
  induction siblings generalizing before start with
  | nil => exact List.nil_subset _
  | cons first rest inductionHypothesis =>
      rw [row, preorderOf, List.cons_subset]
      refine ⟨List.mem_append_left _ (ofTree_mem_preorder _ _ first), ?_⟩
      exact List.Subset.trans (inductionHypothesis _ _) (List.subset_append_right _ _)

mutual

/-- The walk through a visited node is part of the walk that visits it. -/
theorem walk_within_preorder (above : List Frame) (start : Nat) (found : Node) : (tree : Tree) →
    node found ∈ preorder above start tree → found.walk <:+: preorder above start tree
  | .leaf token, visited => by simp [preorder] at visited
  | .node kind children, visited => by
      rw [preorder, List.mem_cons] at visited
      rcases visited with same | inside
      · obtain rfl := Place.node.inj same
        exact List.infix_rfl
      · rw [preorder]
        exact (walk_within_preorderOf kind start above [] start found children inside).trans
          (List.suffix_cons _ _).isInfix

theorem walk_within_preorderOf (kind : NodeKind) (origin : Nat) (above : List Frame)
    (before : List Tree) (start : Nat) (found : Node) : (siblings : List Tree) →
    node found ∈ preorderOf kind origin above before start siblings →
    found.walk <:+: preorderOf kind origin above before start siblings
  | [], visited => by simp [preorderOf] at visited
  | first :: rest, visited => by
      rw [preorderOf, List.mem_append] at visited
      rw [preorderOf]
      rcases visited with inFirst | inRest
      · exact (walk_within_preorder _ _ found first inFirst).trans
          (List.prefix_append _ _).isInfix
      · exact (walk_within_preorderOf _ _ _ _ _ found rest inRest).trans
          (List.suffix_append _ _).isInfix

end

end Place

namespace Node

variable {node inner outer : Node} {leaf : Leaf}

theorem mem_walk_of_mem_places {place : Place} (listed : place ∈ node.places) :
    place ∈ node.walk :=
  .tail _ (Place.row_subset_preorderOf _ _ _ _ _ _ listed)

theorem mem_ofKind {kind : NodeKind} :
    inner ∈ node.ofKind kind ↔ inner ∈ node.descendants ∧ inner.kind = kind := by
  rw [ofKind, List.mem_filter, beq_iff_eq]

theorem mem_descendants_self (node : Node) : node ∈ node.descendants :=
  mem_descendants_iff.mpr (.head _)

theorem mem_descendants_of_child (child : inner ∈ node.childNodes) : inner ∈ node.descendants :=
  mem_descendants_iff.mpr (mem_walk_of_mem_places (mem_childNodes_iff.mp child))

theorem walk_subset (visited : inner ∈ node.descendants) : inner.walk ⊆ node.walk :=
  (Place.walk_within_preorder _ _ inner node.tree (mem_descendants_iff.mp visited)).subset

theorem mem_descendants_trans (visited : inner ∈ outer.descendants)
    (below : outer ∈ node.descendants) : inner ∈ node.descendants :=
  mem_descendants_iff.mpr (walk_subset below (mem_descendants_iff.mp visited))

theorem mem_leaves_of_child (child : leaf ∈ inner.childLeaves) (below : inner ∈ node.descendants) :
    leaf ∈ node.leaves :=
  mem_leaves_iff.mpr
    (walk_subset below (mem_walk_of_mem_places (mem_childLeaves_iff.mp child)))

theorem clean_of_descendant (clean : node.hasError = false) (visited : inner ∈ node.descendants) :
    inner.hasError = false :=
  holds_of_descendant (Tree.everywhere_clean node.tree clean) visited

/-- Where a node stands among the children of another one. -/
structure StandsIn (inner node : Node) (earlier later : List Tree) : Prop where
  children : node.children = earlier ++ inner.tree :: later
  above : inner.above = ⟨node.kind, node.start, earlier.reverse, later⟩ :: node.above
  start : inner.start = node.start + Tree.widthOf earlier

theorem exists_standsIn (child : inner ∈ node.childNodes) :
    ∃ earlier later, inner.StandsIn node earlier later := by
  obtain ⟨earlier, tree, later, split, place⟩ :=
    Place.mem_row_iff.mp (mem_childNodes_iff.mp child)
  cases tree with
  | leaf => simp [Place.ofTree] at place
  | node kind children =>
      obtain rfl := Place.node.inj place
      exact ⟨earlier, later, split, by simp, rfl⟩

/-- A node that is visited is where the walk starts or a child of a node that is visited. -/
theorem eq_or_exists_parent (visited : inner ∈ node.descendants) :
    inner = node ∨ ∃ parent ∈ node.descendants, inner ∈ parent.childNodes := by
  rcases Place.parent_preorder _ _ _ node.tree (mem_descendants_iff.mp visited) with
    itself | ⟨parent, below, listed⟩
  · exact .inl (Place.node.inj itself)
  · exact .inr ⟨parent, mem_descendants_iff.mpr below, mem_childNodes_iff.mpr listed⟩

theorem ancestors_of_child (child : inner ∈ node.childNodes) :
    inner.ancestors = inner :: node.ancestors := by
  obtain ⟨earlier, later, children, above, -⟩ := exists_standsIn child
  rw [ancestors, above, ancestorsFrom, List.reverse_reverse]
  have whole : earlier ++ .node inner.kind inner.children :: later = node.children :=
    children.symm
  rw [whole, ← above]
  rfl

/-- The nodes around a visited node are visited, and it is inside of each of them. -/
theorem mem_descendants_of_ancestor (outermost : node.above = [])
    (visited : inner ∈ node.descendants) (around : outer ∈ inner.ancestors) :
    outer ∈ node.descendants ∧ inner ∈ outer.descendants := by
  generalize depth : inner.above.length = count
  induction count generalizing inner with
  | zero =>
      rw [ancestors, List.length_eq_zero_iff.mp depth, ancestorsFrom, List.mem_singleton,
        ← List.length_eq_zero_iff.mp depth] at around
      obtain rfl : outer = inner := around
      exact ⟨visited, mem_descendants_self _⟩
  | succ count inductionHypothesis =>
      rcases eq_or_exists_parent visited with rfl | ⟨parent, below, child⟩
      · simp [outermost] at depth
      · rw [ancestors_of_child child, List.mem_cons] at around
        rcases around with rfl | around
        · exact ⟨visited, mem_descendants_self _⟩
        · obtain ⟨earlier, later, stands⟩ := exists_standsIn child
          have shallower : parent.above.length = count := by
            simpa [stands.above] using depth
          obtain ⟨outerVisited, inside⟩ := inductionHypothesis below around shallower
          exact ⟨outerVisited, mem_descendants_trans (mem_descendants_of_child child) inside⟩

theorem within_of_leaf (visited : leaf ∈ node.leaves) :
    ∃ before after, node.tree.tokens = before ++ leaf.token :: after ∧
      leaf.start = node.start + Token.widthOf before := by
  apply Token.exists_of_mem_located
  rw [← located_leaves]
  exact List.mem_map_of_mem visited

theorem leaf_span_within (visited : leaf ∈ node.leaves) :
    node.start ≤ leaf.start ∧ leaf.stop ≤ node.stop := by
  obtain ⟨before, after, tokens, start⟩ := within_of_leaf visited
  rw [stop_eq, Leaf.stop, tokens, Token.widthOf_append, Token.widthOf, start]
  omega

/-- A node that is inside of another one spans part of it. -/
theorem span_within (visited : inner ∈ node.descendants) :
    node.start ≤ inner.start ∧ inner.stop ≤ node.stop := by
  obtain ⟨before, after, tokens, start⟩ := within_of_descendant visited
  rw [stop_eq, stop_eq, tokens, Token.widthOf_append, Token.widthOf_append, start]
  omega

/-- The frame of the node that a token is a child of comes first. -/
theorem above_of_childLeaf (child : leaf ∈ node.childLeaves) :
    leaf.above.tail = node.above ∧ ∀ frame ∈ leaf.above.head?, frame.kind = node.kind := by
  obtain ⟨earlier, tree, later, -, place⟩ := Place.mem_row_iff.mp (mem_childLeaves_iff.mp child)
  cases tree with
  | node => simp [Place.ofTree] at place
  | leaf token =>
      obtain rfl := Place.leaf.inj place
      simp

/-- What stands first among the children of a node is its first node. -/
theorem StandsIn.firstNode? {later : List Tree} (stands : inner.StandsIn node [] later) :
    node.firstNode? = some inner := by
  obtain ⟨kind, children, start, above⟩ := inner
  obtain ⟨whole, frames, begins⟩ := stands
  simp only [List.nil_append, Tree.widthOf, Nat.add_zero, List.reverse_nil] at whole frames begins
  subst frames begins
  rw [Node.firstNode?, childNodes, places, whole]
  rfl

theorem exists_firstNode {first : Tree} {later : List Tree}
    (children : node.children = first :: later) (isNode : first.isNode = true) :
    ∃ inner : Node, inner.StandsIn node [] later ∧ inner.tree = first := by
  cases first with
  | leaf => contradiction
  | node kind row =>
      refine ⟨⟨kind, row, node.start, ⟨node.kind, node.start, [], later⟩ :: node.above⟩, ?_, rfl⟩
      exact ⟨children, rfl, by simp [Tree.widthOf]⟩

/-- A node below another one: a child of it, or of a node below it. -/
def IsBelow (inner outer : Node) : Prop :=
  ∃ parent ∈ outer.descendants, inner ∈ parent.childNodes

theorem IsBelow.mem_descendants (below : inner.IsBelow outer) : inner ∈ outer.descendants := by
  obtain ⟨parent, visited, child⟩ := below
  exact mem_descendants_trans (mem_descendants_of_child child) visited

end Node

namespace Place

mutual

/-- Of two nodes on a walk, the later one is below the earlier one or starts after it. -/
theorem ordered_preorder (above : List Frame) (start : Nat) : (tree : Tree) →
    ((preorder above start tree).filterMap node?).Pairwise fun earlier later =>
      later.IsBelow earlier ∨ earlier.stop ≤ later.start
  | .leaf token => by simp [preorder, List.filterMap_cons, node?]
  | .node kind children => by
      simp only [preorder, List.filterMap_cons, node?, List.pairwise_cons]
      refine ⟨fun later visited => .inl ?_, ordered_preorderOf kind start above [] start children⟩
      have inside := mem_filterMap_node?.mp visited
      rcases parent_preorderOf kind start above [] start _ children inside with
        direct | ⟨parent, below, listed⟩
      · exact ⟨_, Node.mem_descendants_self _, Node.mem_childNodes_iff.mpr direct⟩
      · exact ⟨parent, Node.mem_descendants_iff.mpr (.tail _ below),
          Node.mem_childNodes_iff.mpr listed⟩

theorem ordered_preorderOf (kind : NodeKind) (origin : Nat) (above : List Frame)
    (before : List Tree) (start : Nat) : (siblings : List Tree) →
    ((preorderOf kind origin above before start siblings).filterMap node?).Pairwise
      fun earlier later => later.IsBelow earlier ∨ earlier.stop ≤ later.start
  | [] => .nil
  | first :: rest => by
      rw [preorderOf, List.filterMap_append, List.pairwise_append]
      refine ⟨ordered_preorder _ _ first, ordered_preorderOf _ _ _ _ _ rest, ?_⟩
      intro earlier inFirst later inRest
      obtain ⟨front, back, tokens, earlierStart⟩ := node_within_preorder _ _ earlier first inFirst
      obtain ⟨between, _, _, laterStart⟩ := node_within_preorderOf _ _ _ _ _ later rest inRest
      right
      rw [Node.stop_eq, earlierStart, laterStart, Tree.width_eq, tokens, Token.widthOf_append,
        Token.widthOf_append]
      omega

end

end Place

theorem Node.ordered_descendants (node : Node) :
    node.descendants.Pairwise fun earlier later =>
      later.IsBelow earlier ∨ earlier.stop ≤ later.start :=
  Place.ordered_preorder _ _ node.tree

end Scrapscript
