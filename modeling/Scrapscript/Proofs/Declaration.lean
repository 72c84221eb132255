import Scrapscript.Highlight
import Scrapscript.Proofs.Document
import Scrapscript.Proofs.Tokenization

/-!
Where declarations stand and which names they bind. A declaration starts before those that it
contains, since they come after the semicolon of a where clause. Going down from the declarations to
the names that they bind, and going up from a name to the declaration that binds it, leads to the
same names.
-/

namespace Scrapscript

open Scrapscript.Tree (withoutTrivia isToken)

namespace Document

variable {document : Document} {text : Text}

section

variable (opened : ofText text = .ok document)

include opened

/-- Tokens are not empty, so that a part of a node with a token in it has a width. -/
theorem widthOf_pos {node : Node} {row : List Tree} {token : Token}
    (visited : node ∈ document.root.descendants) (part : row ⊆ node.children)
    (listed : .leaf token ∈ row) : 0 < Tree.widthOf row := by
  have read : token ∈ Lexer.tokenize text := by
    rw [← token_leaves opened, Node.token_leaves]
    obtain ⟨before, after, tokens, -⟩ := Node.within_of_descendant visited
    rw [tokens]
    simp [Node.tree, Tree.tokens, Tree.mem_tokensOf_of_leaf (part listed)]
  calc
    0 < token.width := Lexer.width_pos read
    _ = (Tree.leaf token).width := by rw [Tree.width]
    _ ≤ Tree.widthOf row := Tree.width_le_widthOf listed

/-- A declaration below another one stands in a where clause. -/
theorem whereClause_of_declaration {declaration parent inner : Node}
    (visited : declaration ∈ document.root.descendants) (kind : declaration.kind = .declaration)
    (below : parent ∈ declaration.descendants) (child : inner ∈ parent.childNodes)
    (innerKind : inner.kind = .declaration) : parent.kind = .whereClause := by
  have placed {node inner : Node} (below : node ∈ declaration.descendants)
      (child : inner ∈ node.childNodes) : Grammar.isMisplaced node.kind inner.tree = false := by
    have allowed := allowed_of_visited opened (Node.mem_descendants_trans below visited)
    apply Grammar.isMisplaced_eq_false allowed
    have listed := List.mem_map_of_mem (f := Node.tree) child
    rw [node.map_childNodes] at listed
    rw [withoutTrivia, List.mem_filter]
    exact ⟨List.mem_of_mem_filter listed, rfl⟩
  have inClause := placed below child
  have inside : parent.kind ≠ .sourceFile := by
    intro whole
    rcases Node.eq_or_exists_parent below with rfl | ⟨grandparent, alsoBelow, alsoChild⟩
    · rw [kind] at whole
      contradiction
    · simpa [Grammar.isMisplaced, Node.tree, whole] using placed alsoBelow alsoChild
  simpa [Grammar.isMisplaced, Node.tree, innerKind, inside] using inClause

/-- In a where clause the semicolon comes before the declaration. -/
theorem start_lt_of_whereClause {clause inner : Node} (visited : clause ∈ document.root.descendants)
    (kind : clause.kind = .whereClause) (child : inner ∈ clause.childNodes)
    (innerKind : inner.kind = .declaration) : clause.start < inner.start := by
  have allowed := allowed_of_visited opened visited
  rw [Allowed, kind] at allowed
  obtain ⟨left, middle, binding, row, leveled, isSemicolon, -⟩ :=
    Grammar.exists_of_fills_three allowed
  obtain ⟨semicolon, rfl, -⟩ := Grammar.exists_leaf_of_isToken isSemicolon
  obtain ⟨earlier, later, stands⟩ := Node.exists_standsIn child
  have before : .leaf semicolon ∈ earlier := by
    rw [stands.children, Tree.withoutTrivia_append, Node.tree, Tree.withoutTrivia_node] at row
    rcases kept : withoutTrivia earlier with _ | ⟨first, _ | ⟨second, others⟩⟩
    · rw [kept] at row
      rw [(List.cons.inj row).1.symm, innerKind] at leveled
      contradiction
    · simp [kept] at row
    · rw [kept] at row
      have same : second = .leaf semicolon := (List.cons.inj (List.cons.inj row).2).1
      apply List.mem_of_mem_filter
      rw [← withoutTrivia, kept, same]
      exact .tail _ (.head _)
  have part : earlier ⊆ clause.children := by
    rw [stands.children]
    exact List.subset_append_left _ _
  have positive := widthOf_pos opened visited part before
  rw [stands.start]
  omega

/-- A declaration is not empty, since it has an equals sign. -/
theorem start_lt_stop {declaration : Node} (visited : declaration ∈ document.root.descendants)
    (kind : declaration.kind = .declaration) : declaration.start < declaration.stop := by
  have allowed := allowed_of_visited opened visited
  rw [Allowed, kind] at allowed
  obtain ⟨equals, among, isEquals⟩ :=
    Grammar.exists_filler allowed (show isToken .equals ∈ _ from .tail _ (.head _))
  obtain ⟨token, rfl, -⟩ := Grammar.exists_leaf_of_isToken isEquals
  have positive := widthOf_pos opened visited (List.Subset.refl _) (List.mem_of_mem_filter among)
  rw [Node.stop]
  omega

/-- Declarations start one after the other. A later one is inside of an earlier one, or starts where
that one has stopped. -/
theorem ordered_declarations :
    (document.root.ofKind .declaration).Pairwise fun earlier later =>
      earlier.start < later.start ∧ (later.stop ≤ earlier.stop ∨ earlier.stop ≤ later.start) := by
  apply (document.root.ordered_descendants.filter _).imp_of_mem
  intro earlier later earlierListed laterListed order
  obtain ⟨visited, kind⟩ := Node.mem_ofKind.mp earlierListed
  obtain ⟨-, laterKind⟩ := Node.mem_ofKind.mp laterListed
  rcases order with below | apart
  · have span := Node.span_within below.mem_descendants
    obtain ⟨parent, inside, child⟩ := below
    have clause := whereClause_of_declaration opened visited kind inside child laterKind
    have after := start_lt_of_whereClause opened (Node.mem_descendants_trans inside visited) clause
      child laterKind
    have start := (Node.span_within inside).1
    exact ⟨by omega, .inl span.2⟩
  · have positive := start_lt_stop opened visited kind
    exact ⟨by omega, .inr apart⟩

/-- A compound begins with a node, and this node is not missing. -/
theorem exists_leading {node : Node} (visited : node ∈ document.root.descendants)
    (compound : node.kind.isCompound = true) :
    ∃ (inner : Node) (later : List Tree), inner.StandsIn node [] later ∧ inner.kind ≠ .error := by
  obtain ⟨tree, later, children, isNode, proper⟩ :=
    Node.holds_of_descendant (led_root opened) visited compound
  obtain ⟨inner, stands, rfl⟩ := Node.exists_firstNode children isNode
  refine ⟨inner, later, stands, ?_⟩
  intro error
  rw [Node.tree, error] at proper
  contradiction

theorem standsIn_of_firstNode? {node inner : Node} (visited : node ∈ document.root.descendants)
    (compound : node.kind.isCompound = true) (first : node.firstNode? = some inner) :
    ∃ later, inner.StandsIn node [] later := by
  obtain ⟨leading, later, stands, -⟩ := exists_leading opened visited compound
  obtain rfl := Option.some.inj (first.symm.trans stands.firstNode?)
  exact ⟨later, stands⟩

/-- A child of a compound with no node before it is the one that the compound begins with. -/
theorem firstNode?_of_noNodes {node inner : Node} {earlier later : List Tree}
    (visited : node ∈ document.root.descendants) (compound : node.kind.isCompound = true)
    (stands : inner.StandsIn node earlier later)
    (foremost : Highlight.noNodes earlier.reverse = true) :
    node.firstNode? = some inner ∧ inner.kind ≠ .error := by
  obtain ⟨leading, others, leads, proper⟩ := exists_leading opened visited compound
  cases earlier with
  | nil =>
      have same := leads.firstNode?.symm.trans stands.firstNode?
      exact ⟨stands.firstNode?, Option.some.inj same ▸ proper⟩
  | cons sibling earlier =>
      obtain ⟨rfl, -⟩ := List.cons.inj (leads.children.symm.trans stands.children)
      simp [Highlight.noNodes, Node.tree, Tree.isNode] at foremost

end

end Document

namespace Node

/-- The identifier that a declaration binds: its pattern, or what its pattern ascribes a type to. -/
inductive Binds (declaration : Node) : Node → Prop
  | plain {name : Node} (first : declaration.firstNode? = some name)
      (identifier : name.kind = .identifier) : Binds declaration name
  | typed {pattern name : Node} (outer : declaration.firstNode? = some pattern)
      (ascription : pattern.kind = .ascription) (inner : pattern.firstNode? = some name)
      (identifier : name.kind = .identifier) : Binds declaration name

theorem Binds.identifier {declaration name : Node} (binds : declaration.Binds name) :
    name.kind = .identifier := by
  cases binds with
  | plain _ identifier => exact identifier
  | typed _ _ _ identifier => exact identifier

/-- A declaration binds a name exactly if its pattern is one, possibly with a type. -/
theorem declaresName_iff {declaration : Node} (kind : declaration.kind = .declaration) :
    declaration.tree.declaresName = true ↔ ∃ name, declaration.Binds name := by
  rw [tree, kind, Tree.declaresName, ← declaration.tree_firstNode?, Option.any_map]
  constructor
  · intro declares
    obtain ⟨pattern, first, typed⟩ := (Option.any_eq_true ..).mp declares
    rw [pattern.isTypedName_tree, Bool.or_eq_true] at typed
    rcases typed with identifier | typed
    · exact ⟨pattern, .plain first (eq_of_beq identifier)⟩
    · obtain ⟨ascription, named⟩ := (Bool.and_eq_true ..).mp typed
      obtain ⟨name, inner, identifier⟩ := (Option.any_eq_true ..).mp named
      exact ⟨name, .typed first (eq_of_beq ascription) inner (eq_of_beq identifier)⟩
  · rintro ⟨name, binds⟩
    cases binds with
    | plain first identifier => simp [first, isTypedName_tree, identifier]
    | typed outer ascription inner identifier =>
        simp [outer, isTypedName_tree, ascription, inner, identifier]

/-- The node of a single token has no other. -/
theorem childLeaves_of_single {name : Node} {token : Token}
    (children : name.children = [.leaf token]) :
    name.childLeaves = [⟨token, name.start, ⟨name.kind, name.start, [], []⟩ :: name.above⟩] := by
  rw [childLeaves, places, children]
  rfl

end Node

namespace Highlight

variable {frame : Frame} {above : List Frame}

/-- A declared node is the first one in a declaration, or in an ascription that is. -/
theorem isDeclared_cons_iff :
    isDeclared (frame :: above) = true ↔
      frame.kind = .declaration ∧ noNodes frame.before = true ∨
      frame.kind = .ascription ∧ noNodes frame.before = true ∧
        ∃ outer ∈ above.head?, outer.kind = .declaration ∧ noNodes outer.before = true := by
  cases above with
  | nil => simp [isDeclared]
  | cons outer rest =>
      by_cases declaration : frame.kind = .declaration
      · simp [isDeclared, declaration]
      · simp [isDeclared, declaration, and_assoc, and_comm, and_left_comm]

end Highlight

namespace Document

variable {document : Document} {text : Text} {declaration name : Node} {leaf : Leaf}

section

variable (opened : ofText text = .ok document)

include opened

/-- The name that a declaration binds starts with it, and its surroundings say that it is
declared. -/
theorem declared_of_binds (listed : declaration ∈ document.root.ofKind .declaration)
    (binds : declaration.Binds name) :
    name ∈ document.root.descendants ∧ name.start = declaration.start ∧
      Highlight.isDeclared name.above = true := by
  obtain ⟨visited, kind⟩ := Node.mem_ofKind.mp listed
  have compound : declaration.kind.isCompound = true := by rw [kind]; rfl
  have inside {outer inner : Node} (below : outer ∈ document.root.descendants)
      (first : outer.firstNode? = some inner) : inner ∈ document.root.descendants :=
    Node.mem_descendants_trans (Node.mem_descendants_of_child (List.mem_of_mem_head? first)) below
  cases binds with
  | plain first identifier =>
      obtain ⟨later, stands⟩ := standsIn_of_firstNode? opened visited compound first
      refine ⟨inside visited first, stands.start, ?_⟩
      rw [stands.above]
      exact Highlight.isDeclared_cons_iff.mpr (.inl ⟨kind, rfl⟩)
  | @typed pattern _ outer ascription inner identifier =>
      have patternVisited := inside visited outer
      have alsoCompound : pattern.kind.isCompound = true := by rw [ascription]; rfl
      obtain ⟨later, stands⟩ := standsIn_of_firstNode? opened visited compound outer
      obtain ⟨more, innerStands⟩ :=
        standsIn_of_firstNode? opened patternVisited alsoCompound inner
      refine ⟨inside patternVisited inner, innerStands.start.trans stands.start, ?_⟩
      rw [innerStands.above, stands.above]
      exact Highlight.isDeclared_cons_iff.mpr (.inr ⟨ascription, rfl, _, rfl, kind, rfl⟩)

/-- The name that a declaration binds is a token at the start of the declaration. -/
theorem exists_leaf_of_binds (listed : declaration ∈ document.root.ofKind .declaration)
    (binds : declaration.Binds name) :
    ∃ leaf ∈ document.root.leaves, name.childLeaves = [leaf] ∧ leaf.kind = .ident ∧
      leaf.start = declaration.start ∧ leaf.text = name.text ∧
      Highlight.isDeclared leaf.above.tail = true := by
  obtain ⟨visited, start, declared⟩ := declared_of_binds opened listed binds
  obtain ⟨token, children, ident⟩ :=
    Node.holds_of_descendant (named_root opened) visited binds.identifier
  have only := Node.childLeaves_of_single children
  refine ⟨_, Node.mem_leaves_of_child (only ▸ .head _) visited, only, ident, start, ?_, declared⟩
  simp [Leaf.text, Node.text, Tree.text, Node.tree, children, Tree.tokens, Tree.tokensOf,
    Token.textOf]

/-- What the surroundings of a node say to be declared is the pattern of a declaration, or the first
node in it under a type. -/
theorem exists_declaration (visited : name ∈ document.root.descendants)
    (declared : Highlight.isDeclared name.above = true) :
    name.kind ≠ .error ∧ ∃ declaration ∈ document.root.ofKind .declaration,
      declaration.firstNode? = some name ∨
        ∃ pattern : Node, pattern.kind = .ascription ∧ declaration.firstNode? = some pattern ∧
          pattern.firstNode? = some name := by
  rcases Node.eq_or_exists_parent visited with rfl | ⟨parent, below, child⟩
  · contradiction
  obtain ⟨earlier, later, stands⟩ := Node.exists_standsIn child
  rw [stands.above, Highlight.isDeclared_cons_iff] at declared
  rcases declared with ⟨kind, foremost⟩ | ⟨kind, foremost, outer, around, outerKind, alsoForemost⟩
  · have compound : parent.kind.isCompound = true := by rw [show parent.kind = _ from kind]; rfl
    obtain ⟨first, proper⟩ := firstNode?_of_noNodes opened below compound stands foremost
    exact ⟨proper, parent, Node.mem_ofKind.mpr ⟨below, kind⟩, .inl first⟩
  · have compound : parent.kind.isCompound = true := by rw [show parent.kind = _ from kind]; rfl
    obtain ⟨first, proper⟩ := firstNode?_of_noNodes opened below compound stands foremost
    rcases Node.eq_or_exists_parent below with rfl | ⟨grandparent, alsoBelow, alsoChild⟩
    · contradiction
    obtain ⟨before, after, alsoStands⟩ := Node.exists_standsIn alsoChild
    rw [alsoStands.above] at around
    obtain rfl := Option.some.inj around
    have alsoCompound : grandparent.kind.isCompound = true := by
      rw [show grandparent.kind = _ from outerKind]; rfl
    obtain ⟨alsoFirst, -⟩ :=
      firstNode?_of_noNodes opened alsoBelow alsoCompound alsoStands alsoForemost
    exact ⟨proper, grandparent, Node.mem_ofKind.mpr ⟨alsoBelow, outerKind⟩,
      .inr ⟨parent, kind, alsoFirst, first⟩⟩

/-- A declared token is the name that a declaration binds. -/
theorem exists_binds_of_leaf (listed : leaf ∈ document.root.leaves) (ident : leaf.kind = .ident)
    (declared : Highlight.isDeclared leaf.above.tail = true) :
    ∃ declaration ∈ document.root.ofKind .declaration, ∃ name, declaration.Binds name ∧
      leaf ∈ name.childLeaves := by
  obtain ⟨name, visited, child⟩ := Node.parent_of_leaf listed
  rw [(Node.above_of_childLeaf child).1] at declared
  obtain ⟨proper, declaration, isDeclaration, around⟩ := exists_declaration opened visited declared
  have kind : leaf.token.kind = .ident := ident
  have identifier : name.kind = .identifier := by
    have among : .leaf leaf.token ∈ withoutTrivia name.children := by
      have placed := List.mem_map_of_mem (f := (Tree.leaf ·.token)) child
      rw [name.map_childLeaves] at placed
      refine List.mem_filter.mpr ⟨List.mem_of_mem_filter placed, ?_⟩
      simp [Tree.isTrivia, Token.isTrivia, kind, TokenKind.isTrivia]
    have placed := Grammar.isMisplaced_eq_false (allowed_of_visited opened visited) _ among
    simpa [Grammar.isMisplaced, kind, proper] using placed
  rcases around with first | ⟨pattern, ascription, outer, inner⟩
  · exact ⟨declaration, isDeclaration, name, .plain first identifier, child⟩
  · exact ⟨declaration, isDeclaration, name, .typed outer ascription inner identifier, child⟩

end

end Document

end Scrapscript
