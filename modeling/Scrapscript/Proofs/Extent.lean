import Scrapscript.Proofs.Occurrence

/-!
Where nodes begin and end. White space and comments stand between tokens of a node or outside of it:
every node below the root that has a text begins with a significant token, and if nothing is wrong
in it, ends with one. The range of such a node is drawn around these two tokens.
-/

namespace Scrapscript

open Scrapscript.Tree (EverywhereIn Ended hasErrorIn tokensOf)

theorem Token.textOf_ne_nil {tokens : List Token} (spelled : textOf tokens ≠ []) : tokens ≠ [] := by
  rintro rfl
  exact spelled rfl

namespace Tree

theorem kind_ne_error_of_clean {kind : NodeKind} {children : List Tree}
    (clean : (node kind children).hasError = false) : kind ≠ .error := by
  rintro rfl
  simp [hasError] at clean

theorem ended_rest {first second : Tree} {rest : List Tree}
    (ended : Ended (first :: second :: rest)) : Ended (second :: rest) := by
  obtain ⟨last, ends, significant⟩ := ended
  exact ⟨last, by simpa using ends, significant⟩

mutual

/-- In a tree without errors the last piece of every node has a token, so that the last token of the
tree is that of its last piece. -/
theorem significant_last : (tree : Tree) → tree.Everywhere Tight → tree.hasError = false →
    tree.isTrivia = false →
    ∃ before token, tree.tokens = before ++ [token] ∧ token.isTrivia = false
  | leaf token, _, _, significant => ⟨[], token, rfl, significant⟩
  | node _ children, tight, clean, _ =>
      significant_lastOf children (tight.1.ended (kind_ne_error_of_clean clean)) tight.2
        ((Bool.or_eq_false_iff ..).mp clean).2

theorem significant_lastOf : (row : List Tree) → Ended row → EverywhereIn Tight row →
    hasErrorIn row = false →
    ∃ before token, tokensOf row = before ++ [token] ∧ token.isTrivia = false
  | [], ended, _, _ => by
      obtain ⟨last, ends, -⟩ := ended
      contradiction
  | [last], ended, tight, clean => by
      obtain ⟨_, ⟨⟩, significant⟩ := ended
      have lastClean := ((Bool.or_eq_false_iff ..).mp clean).1
      obtain ⟨before, token, tokens, kept⟩ := significant_last last tight.1 lastClean significant
      exact ⟨before, token, by simpa [tokensOf] using tokens, kept⟩
  | first :: second :: rest, ended, tight, clean => by
      have others := ((Bool.or_eq_false_iff ..).mp clean).2
      obtain ⟨before, token, tokens, kept⟩ :=
        significant_lastOf (second :: rest) (ended_rest ended) tight.2 others
      exact ⟨first.tokens ++ before, token, by rw [tokensOf, tokens, List.append_assoc], kept⟩

end

end Tree

namespace Node

variable {node : Node} {first last : Leaf}

/-- A node starts where its first token does, which is neither white space nor a comment. -/
structure BeginsWith (node : Node) (first : Leaf) : Prop where
  leads : node.leaves.head? = some first
  significant : first.isTrivia = false
  start : first.start = node.start

/-- A node stops where its last token does, which is neither white space nor a comment. -/
structure EndsWith (node : Node) (last : Leaf) : Prop where
  closes : node.leaves.getLast? = some last
  significant : last.isTrivia = false
  stop : last.stop = node.stop

theorem exists_beginsWith (tight : Tight node.kind node.children) (spelled : node.text ≠ []) :
    ∃ first, node.BeginsWith first := by
  have located := node.located_leaves
  cases tokens : node.tree.tokens with
  | nil => exact absurd tokens (Token.textOf_ne_nil spelled)
  | cons token rest =>
      rw [tokens, Token.located] at located
      obtain ⟨first, later, leaves, same, -⟩ := List.map_eq_cons_iff.mp located
      obtain ⟨rfl, start⟩ := Prod.mk.inj same
      have head : (tokensOf node.children).head? = some first.token := congrArg List.head? tokens
      exact ⟨first, by simp [leaves], tight.begun first.token head, start⟩

theorem exists_endsWith (tight : node.tree.Everywhere Tight) (clean : node.hasError = false) :
    ∃ last, node.EndsWith last := by
  obtain ⟨before, token, tokens, kept⟩ := Tree.significant_last node.tree tight clean rfl
  have located := node.located_leaves
  rw [tokens, Token.located_append, Token.located, Token.located] at located
  obtain ⟨earlier, final, leaves, -, ending⟩ := List.map_eq_append_iff.mp located
  obtain ⟨last, later, rfl, same, ended⟩ := List.map_eq_cons_iff.mp ending
  obtain rfl := List.map_eq_nil_iff.mp ended
  obtain ⟨rfl, start⟩ := Prod.mk.inj same
  have start : last.start = node.start + Token.widthOf before := start
  refine ⟨last, by simp [leaves], kept, ?_⟩
  rw [Leaf.stop, stop_eq, tokens, Token.widthOf_append, start]
  simp [Token.widthOf, Nat.add_assoc]

theorem BeginsWith.mem_leaves (begins : node.BeginsWith first) : first ∈ node.leaves :=
  List.mem_of_mem_head? begins.leads

theorem EndsWith.mem_leaves (ends : node.EndsWith last) : last ∈ node.leaves :=
  List.mem_of_mem_getLast? ends.closes

theorem mem_leaves_of_descendant {root : Node} {leaf : Leaf} (visited : node ∈ root.descendants)
    (inside : leaf ∈ node.leaves) : leaf ∈ root.leaves :=
  mem_leaves_iff.mpr (walk_subset visited (mem_leaves_iff.mp inside))

end Node

namespace Document

variable {document : Document} {text : Text} {node : Node} {first last : Leaf}

theorem nodeRange_start (opened : ofText text = .ok document)
    (visited : node ∈ document.root.descendants) (begins : node.BeginsWith first) :
    (document.nodeRange node).start = (document.leafRange first).start := by
  have inside := Node.mem_leaves_of_descendant visited begins.mem_leaves
  rw [(nodeRange_ends opened visited).1, (leafRange_ends opened inside).1, begins.start]

theorem nodeRange_stop (opened : ofText text = .ok document)
    (visited : node ∈ document.root.descendants) (ends : node.EndsWith last) :
    (document.nodeRange node).stop = (document.leafRange last).stop := by
  have inside := Node.mem_leaves_of_descendant visited ends.mem_leaves
  rw [(nodeRange_ends opened visited).2, (leafRange_ends opened inside).2, ends.stop]

end Document

namespace Parse

variable {text : Text} {node : Node}

/-- Every node below the root that is not empty begins with a significant token, and with nothing
wrong in it ends with one; a request's range for it has the ends of these tokens. -/
theorem extent_of_inner (visited : node ∈ (ofText text).root.descendants)
    (inner : node ≠ (ofText text).root) (spelled : node.text ≠ []) :
    ∃ first, node.BeginsWith first ∧
      (∀ document, Document.ofText text = .ok document →
        (document.nodeRange node).start = (document.leafRange first).start) ∧
      (node.hasError = false → ∃ last, node.EndsWith last ∧
        ∀ document, Document.ofText text = .ok document →
          (document.nodeRange node).stop = (document.leafRange last).stop) := by
  have tight := tight_of_inner visited inner
  have opened {document : Document} (opened : Document.ofText text = .ok document) :
      node ∈ document.root.descendants := by
    obtain ⟨rfl, -⟩ := Document.eq_of_ofText opened
    exact visited
  obtain ⟨first, begins⟩ := Node.exists_beginsWith tight.1 spelled
  refine ⟨first, begins, fun document ofText => ?_, fun clean => ?_⟩
  · exact Document.nodeRange_start ofText (opened ofText) begins
  · obtain ⟨last, ends⟩ := Node.exists_endsWith tight clean
    exact ⟨last, ends, fun document ofText =>
      Document.nodeRange_stop ofText (opened ofText) ends⟩

/-- A declaration with blanks around it and inside of it starts at its name and stops after its
closing bracket. -/
theorem extent_of_inner_declaration :
    ∃ node ∈ (ofText [' ', 'x', ' ', '=', '[', ' ', ']', ' ']).root.descendants,
      node.kind = .declaration ∧ node ≠ (ofText [' ', 'x', ' ', '=', '[', ' ', ']', ' ']).root ∧
        node.text ≠ [] ∧ node.hasError = false ∧
        ∃ first last, node.BeginsWith first ∧ node.EndsWith last ∧
          first.start = 1 ∧ last.stop = 7 := by
  have found : (ofText [' ', 'x', ' ', '=', '[', ' ', ']', ' ']).root.descendants.any
      (fun node => node.kind == .declaration && !node.text.isEmpty && !node.hasError
        && node.start == 1 && node.stop == 7) = true := by
    decide +kernel
  obtain ⟨node, visited, found⟩ := List.any_eq_true.mp found
  simp only [Bool.and_eq_true, beq_iff_eq, Bool.not_eq_true', List.isEmpty_eq_false_iff] at found
  obtain ⟨⟨⟨⟨declaration, spelled⟩, clean⟩, start⟩, stop⟩ := found
  have inner : node ≠ (ofText [' ', 'x', ' ', '=', '[', ' ', ']', ' ']).root := by
    rintro rfl
    simp [root, Node.root] at start
  obtain ⟨first, begins, -, ending⟩ := extent_of_inner visited inner spelled
  obtain ⟨last, ends, -⟩ := ending clean
  exact ⟨node, visited, declaration, inner, spelled, clean, first, last, begins, ends,
    begins.start.trans start, ends.stop.trans stop⟩

end Parse

end Scrapscript
