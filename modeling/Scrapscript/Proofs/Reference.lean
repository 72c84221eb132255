import Scrapscript.Proofs.Grammar.Written
import Scrapscript.Proofs.Locality
import Scrapscript.Proofs.Shape
import Scrapscript.Reference

/-!
The tokens that refer to a name. In a parse that was not cut off an identifier is a single token, so
that the references among the nodes of a document are the references among its leaves.
-/

namespace Scrapscript

open Scrapscript.Tree (leaves withoutTrivia isError)

/-- Dropping the trivia of a row takes none of its significant tokens away. -/
theorem Tree.filter_tokensOf_withoutTrivia (row : List Tree) :
    (tokensOf (withoutTrivia row)).filter (! ·.isTrivia) =
      (tokensOf row).filter (! ·.isTrivia) := by
  induction row with
  | nil => rfl
  | cons tree rest inductionHypothesis =>
      cases tree with
      | node kind children => simp [tokensOf, inductionHypothesis]
      | leaf token =>
          by_cases trivia : token.isTrivia = true <;>
            simp [withoutTrivia_leaf, trivia, tokensOf, Tree.tokens, inductionHypothesis]

namespace Grammar

open Scrapscript.Phrase Scrapscript.Rule

/-- White space and comments around an identifier stay outside of it. -/
theorem ofTokens_ident {tokens : List Token} {token : Token}
    (single : tokens.filter (! ·.isTrivia) = [token]) (ident : token.kind = .ident) :
    ∃ before after, (Parse.ofTokens tokens).items =
      leaves before ++ [.node .identifier [.leaf token]] ++ leaves after := by
  generalize start : Cursor.ofTokens tokens = cursor
  obtain ⟨word, words, rfl⟩ : ∃ word, cursor.words = [word] ∧ word.token = token := by
    have significant := cursor.filter_remaining
    rw [← start, Cursor.remaining_ofTokens, single, start] at significant
    exact List.map_eq_singleton_iff.mp significant.symm
  have next : cursor.settled.kind? = some .ident := by simp [Cursor.kind?, words, ident]
  have taken : take cursor.settled = ⟨[.leaf word.token], cursor.advanced⟩ := by
    simp [take, words, leaves]
  have found : atom operandLevel cursor.settled =
      .found (.node .identifier [.leaf word.token]) cursor.advanced := by
    simp [atom, next, build, taken]
  have exhausted : cursor.advanced.words = [] := by rw [Cursor.advanced_eq words]
  have whole : item cursor = .found (.node .identifier [.leaf word.token]) cursor.advanced := by
    have lifted := atom_lifts cursor _ _ found exhausted
    rwa [item, Rule.settled, Cursor.settled_settled] at lifted
  refine ⟨cursor.blanks.tokens, cursor.advanced.blanks.tokens, ?_⟩
  rw [Parse.ofTokens, start, sourceFile_of_found whole exhausted]

end Grammar

namespace Parse

/-- Every node of a parse that was not cut off has children that the grammar allows. -/
theorem allowed_root {text : Text} (shallow : (ofText text).tooDeep = false) :
    (ofText text).root.tree.Everywhere Allowed := by
  obtain ⟨rest, placed, -, -, tooDeep, allowed⟩ := ofTokens_placed (Lexer.tokenize text)
  have uncut : rest.tooDeep = false := tooDeep ▸ shallow
  exact ⟨allowed uncut, placed.allowed uncut⟩

end Parse

/-- What holds of every identifier: its only child is its name. -/
def Named (kind : NodeKind) (children : List Tree) : Prop :=
  kind = .identifier → ∃ token : Token, children = [.leaf token] ∧ token.kind = .ident

/-- An identifier that the grammar allows and that stands alone is a single token. -/
theorem named_of_standsAlone {kind : NodeKind} {children : List Tree}
    (allowed : Allowed kind children) (standsAlone : StandsAlone kind children) :
    Named kind children := by
  rintro rfl
  obtain ⟨tree, child, isToken⟩ := Grammar.exists_of_fills_one allowed
  obtain ⟨token, rfl, ident⟩ := Grammar.exists_leaf_of_isToken isToken
  have clean : (Tree.node .identifier children).hasError = false := by
    have none := Tree.hasErrorIn_withoutTrivia children
    rw [child] at none
    simp [Tree.hasError, ← none, Tree.hasErrorIn]
  have single : (Tree.tokensOf children).filter (! ·.isTrivia) = [token] := by
    have significant : token.isTrivia = false := by
      simp [Token.isTrivia, ident, TokenKind.isTrivia]
    simp [← Tree.filter_tokensOf_withoutTrivia, child, Tree.tokensOf, Tree.tokens, significant]
  obtain ⟨before, after, items⟩ := Grammar.ofTokens_ident single ident
  have alone := standsAlone clean rfl
  rw [Tree.tokens] at alone
  rw [alone] at items
  -- The one item is the identifier, and so nothing is around it.
  obtain ⟨rfl, rfl⟩ : before = [] ∧ after = [] := by
    have sizes := congrArg List.length items
    simp only [leaves, List.length_append, List.length_map, List.length_singleton] at sizes
    exact ⟨List.length_eq_zero_iff.mp (by omega), List.length_eq_zero_iff.mp (by omega)⟩
  refine ⟨token, ?_, ident⟩
  simpa [leaves] using items

theorem Parse.named_root {text : Text} (shallow : (ofText text).tooDeep = false) :
    (ofText text).root.tree.Everywhere Named :=
  Tree.everywhere_of_both (fun _ _ => named_of_standsAlone) _ (allowed_root shallow)
    (standsAlone_root text)

/-- Whether the node of a token is an identifier that does not name a tag. -/
def Leaf.isReference (leaf : Leaf) : Bool :=
  leaf.parent?.any Document.isReference

namespace Place

open Scrapscript.Document (isReference)

mutual

theorem references_preorder (above : List Frame) (start : Nat) : (tree : Tree) →
    tree.Everywhere Named →
    (tree.isNode = false → ∀ frame ∈ above.head?, frame.kind ≠ .identifier) →
    (((preorder above start tree).filterMap node?).filter isReference).map
        (fun node => (node.start, node.tree.tokens)) =
      (((preorder above start tree).filterMap leaf?).filter Leaf.isReference).map
        fun leaf => (leaf.start, [leaf.token])
  | .leaf token, _, outside => by
      have other : Leaf.isReference ⟨token, start, above⟩ = false := by
        cases above with
        | nil => rfl
        | cons frame above =>
            have kind := outside rfl frame rfl
            simp [Leaf.isReference, Leaf.parent?, isReference, kind]
      simp [preorder, node?, leaf?, other]
  | .node kind children, named, _ => by
      by_cases identifier : kind = .identifier
      · obtain ⟨token, rfl, -⟩ := named.1 identifier
        have same : Leaf.isReference ⟨token, start, ⟨kind, start, [], []⟩ :: above⟩ =
            isReference ⟨kind, [.leaf token], start, above⟩ := rfl
        cases refers : isReference ⟨kind, [.leaf token], start, above⟩ <;>
          simp [preorder, preorderOf, List.filterMap_cons, node?, leaf?, same, refers, Node.tree,
            Tree.tokens, Tree.tokensOf]
      · have other : isReference ⟨kind, children, start, above⟩ = false := by
          simp [isReference, identifier]
        simpa [preorder, List.filterMap_cons, node?, leaf?, other] using
          references_preorderOf kind start above [] start identifier children named.2

/-- The references below a node that is no identifier itself. -/
theorem references_preorderOf (kind : NodeKind) (origin : Nat) (above : List Frame)
    (before : List Tree) (start : Nat) (other : kind ≠ .identifier) : (row : List Tree) →
    Tree.EverywhereIn Named row →
    (((preorderOf kind origin above before start row).filterMap node?).filter isReference).map
        (fun node => (node.start, node.tree.tokens)) =
      (((preorderOf kind origin above before start row).filterMap leaf?).filter
        Leaf.isReference).map fun leaf => (leaf.start, [leaf.token])
  | [], _ => rfl
  | first :: rest, named => by
      have inFirst := references_preorder (⟨kind, origin, before, rest⟩ :: above) start first
        named.1 (by simpa using fun _ => other)
      have inRest := references_preorderOf kind origin above (first :: before)
        (start + first.width) other rest named.2
      simp only [preorderOf, List.filterMap_append, List.filter_append, List.map_append, inFirst,
        inRest]

end

end Place

/-- The references among the nodes are those among the leaves. -/
theorem Node.references_eq {node : Node} (named : node.tree.Everywhere Named) :
    (node.descendants.filter Document.isReference).map
        (fun node => (node.start, node.tree.tokens)) =
      (node.leaves.filter Leaf.isReference).map fun leaf => (leaf.start, [leaf.token]) :=
  Place.references_preorder node.above node.start node.tree named nofun

namespace Leaf

variable {node : Node} {leaf : Leaf}

/-- A reference is the only token of its node. -/
theorem parent_of_isReference (named : node.tree.Everywhere Named) (visited : leaf ∈ node.leaves)
    (refers : leaf.isReference = true) :
    ∃ parent, leaf.parent? = some parent ∧ parent.tree.tokens = [leaf.token] ∧
      leaf.kind = .ident := by
  obtain ⟨parent, below, found⟩ := Node.exists_parent visited
  have identifier : parent.kind = .identifier := by
    simp only [isReference, found, Option.any_some, Document.isReference, Bool.and_eq_true,
      beq_iff_eq] at refers
    exact refers.1
  obtain ⟨token, children, ident⟩ := Node.holds_of_descendant named below identifier
  have child : .leaf leaf.token ∈ parent.children := by
    unfold parent? at found
    split at found
    · contradiction
    · simp [← Option.some.inj found]
  rw [children, List.mem_singleton, Tree.leaf.injEq] at child
  refine ⟨parent, found, ?_, by rw [kind, child, ident]⟩
  simp [Node.tree, Tree.tokens, Tree.tokensOf, children, child]

end Leaf

end Scrapscript
