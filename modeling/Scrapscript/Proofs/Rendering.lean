import Scrapscript.Proofs.Grammar.Completeness
import Scrapscript.Proofs.Token.Separation

/-!
Writing a tree down and reading it again. A tree for one item that is grouped as it should be gives
its tokens; with single spaces between them they are a document whose only node is that tree.
-/

namespace Scrapscript

open Scrapscript.Tree (withoutTrivia condensedOf hasErrorIn)

/-- The tokens of a tree with single spaces between them. -/
def Tree.rendered (tree : Tree) : Text :=
  [' '].intercalate (tree.tokens.map Token.text)

/-- A node whose children are grouped as they should be, with commas between the items of a
collection and pattern matches in parentheses only. -/
structure Grammar.Arranged (kind : NodeKind) (row : List Tree) : Prop where
  grouped : Grouped kind row
  separated : separates kind row = true
  confined : confines kind row = true

instance (kind : NodeKind) (row : List Tree) : Decidable (Grammar.Arranged kind row) :=
  decidable_of_iff
    (Grouped kind row ∧ Grammar.separates kind row = true ∧ Grammar.confines kind row = true)
    ⟨fun ⟨grouped, separated, confined⟩ => ⟨grouped, separated, confined⟩,
      fun ⟨grouped, separated, confined⟩ => ⟨grouped, separated, confined⟩⟩

/-- A tree for one item as it can be written down. It has no trivia and no error nodes, each of its
tokens is read as such on its own, and its nodes are arranged as the grammar asks for. -/
structure Tree.Canonical (tree : Tree) : Prop where
  item : Grammar.isWrittenItem tree = true
  significant : ∀ token ∈ tree.tokens, token.isTrivia = false
  spelled : ∀ token ∈ tree.tokens, Lexer.tokenize token.text = [token]
  clean : tree.hasError = false
  arranged : tree.Everywhere Grammar.Arranged
  enclosed : tree.isNodeOf (· == .patternMatch) = false

namespace Grammar

mutual

/-- Without errors and trivia, what is arranged can be written. -/
theorem everywhere_written : (tree : Tree) → tree.Everywhere Arranged → tree.hasError = false →
    (∀ token ∈ tree.tokens, token.isTrivia = false) → tree.Everywhere Written
  | .leaf _, _, _, _ => trivial
  | .node kind row, arranged, clean, significant => by
      have plain : withoutTrivia row = row := by
        apply List.filter_eq_self.mpr
        intro tree listed
        cases tree with
        | leaf token => simp [Tree.isTrivia, significant token (Tree.mem_tokensOf_of_leaf listed)]
        | node => rfl
      obtain ⟨allowed, grouped⟩ := arranged.1.grouped clean
      rw [plain] at allowed grouped
      obtain ⟨proper, inside⟩ : kind ≠ .error ∧ hasErrorIn row = false := by
        simpa [Tree.hasError] using clean
      exact ⟨⟨proper, plain, allowed, grouped, arranged.1.separated, arranged.1.confined⟩,
        everywhereIn_written row arranged.2 inside significant⟩

theorem everywhereIn_written : (row : List Tree) → Tree.EverywhereIn Arranged row →
    hasErrorIn row = false → (∀ token ∈ Tree.tokensOf row, token.isTrivia = false) →
    Tree.EverywhereIn Written row
  | [], _, _, _ => trivial
  | first :: rest, arranged, clean, significant => by
      obtain ⟨firstClean, restClean⟩ := (Bool.or_eq_false_iff ..).mp clean
      constructor
      · apply everywhere_written first arranged.1 firstClean
        intro token listed
        exact significant token (List.mem_append_left _ listed)
      · apply everywhereIn_written rest arranged.2 restClean
        intro token listed
        exact significant token (List.mem_append_right _ listed)

end

end Grammar

namespace Parse

variable {tree : Tree}

theorem isNode_of_item (item : Grammar.isWrittenItem tree = true) : tree.isNode = true := by
  rcases Grammar.writtenItem_parts item with expressed | ⟨_, _, _, rfl, -⟩
  · cases tree with
    | leaf => contradiction
    | node => rfl
  · rfl

/-- The rendering of a tree is read as that tree, up to its end and without errors. -/
theorem reads_rendered (canonical : tree.Canonical) :
    ∃ rest, rest.errors = [] ∧
      Grammar.sourceFile.Reads [tree] (.ofTokens (Lexer.tokenize tree.rendered)) rest := by
  have written := Grammar.everywhere_written tree canonical.arranged canonical.clean
    canonical.significant
  have proper := Tree.forall_tokens (fun _ _ => Grammar.proper_of_written) tree written
    (isNode_of_item canonical.item)
  have tokens : Lexer.tokenize tree.rendered = tree.tokens.intersperse Lexer.gap :=
    Lexer.tokenize_intercalate canonical.significant proper canonical.spelled
  have remaining := Cursor.remaining_ofTokens (tree.tokens.intersperse Lexer.gap)
  have flat := Lexer.breaksLine_of_mem_intersperse canonical.significant
  rw [← remaining] at flat
  obtain ⟨rest, spans, exhausted⟩ := Cursor.spans_remaining flat
  rw [remaining, Lexer.filter_intersperse canonical.significant, ← tokens] at spans
  refine ⟨rest.settled, ?_, Grammar.sourceFile_reads written canonical.item canonical.enclosed spans
    exhausted⟩
  rw [Cursor.settled_errors, spans.errors]
  rfl

/-- A tree that can be written down is read again from its tokens with single spaces between them,
unless it is nested too deeply. -/
theorem childNodes_rendered (canonical : tree.Canonical)
    (shallow : (ofText tree.rendered).tooDeep = false) :
    (ofText tree.rendered).errors = [] ∧
      ∃ node, (ofText tree.rendered).root.childNodes = [node] ∧ node.tree.bare = tree := by
  obtain ⟨rest, errors, reads⟩ := reads_rendered canonical
  obtain ⟨items, reached⟩ := reads shallow
  have isNode := isNode_of_item canonical.item
  constructor
  · simp [ofText, ofTokens, reached, errors]
  · have nodes : ((ofText tree.rendered).root.childNodes.map Node.tree).map Tree.bare = [tree] := by
      rw [Node.map_childNodes]
      calc
        ((ofText tree.rendered).items.filter Tree.isNode).map Tree.bare =
            (condensedOf id (ofText tree.rendered).items).filter Tree.isNode :=
          (Tree.filter_isNode_condensedOf _).symm
        _ = [tree].filter Tree.isNode := congrArg (List.filter Tree.isNode) items
        _ = [tree] := by simp [isNode]
    rw [List.map_map] at nodes
    exact List.map_eq_singleton_iff.mp nodes

/-- A where clause whose binding takes a list with a lone spread off a negative number. -/
def clause : Tree :=
  .node .whereClause [
    .node .identifier [.leaf ⟨.ident, ['a']⟩],
    .leaf ⟨.semicolon, [';']⟩,
    .node .declaration [
      .node .identifier [.leaf ⟨.ident, ['b']⟩],
      .leaf ⟨.equals, ['=']⟩,
      .node .operation [
        .node .number [.leaf ⟨.minus, ['-']⟩, .leaf ⟨.int, ['1']⟩],
        .node .operator [.leaf ⟨.minus, ['-']⟩],
        .node .list [
          .leaf ⟨.openBracket, ['[']⟩,
          .node .spread [.leaf ⟨.dotDot, ['.', '.']⟩],
          .leaf ⟨.closeBracket, [']']⟩]]]]

/-- Neither the sign nor the spread takes a token that is not its own. -/
theorem childNodes_rendered_clause :
    clause.rendered = ['a', ' ', ';', ' ', 'b', ' ', '=', ' ', '-', ' ', '1', ' ', '-', ' ', '[', ' ',
        '.', '.', ' ', ']'] ∧
      clause.Canonical ∧ (ofText clause.rendered).tooDeep = false ∧
      (ofText clause.rendered).errors = [] ∧
      ∃ node, (ofText clause.rendered).root.childNodes = [node] ∧ node.tree.bare = clause := by
  have canonical : clause.Canonical := by
    constructor <;> decide +kernel
  have shallow : (ofText clause.rendered).tooDeep = false := by decide +kernel
  exact ⟨rfl, canonical, shallow, childNodes_rendered canonical shallow⟩

end Parse

end Scrapscript
