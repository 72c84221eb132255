import Scrapscript.Proofs.Diagnostic.Report
import Scrapscript.Proofs.Grammar
import Scrapscript.Proofs.Opening
import Scrapscript.Proofs.Tree.Place

/-!
The errors of a parse are the error nodes of its tree: each move of the grammar that records an
error places an error node where the error says, and no other move places one.
-/

namespace Scrapscript

namespace Tree

mutual

/-- Where the error nodes of a tree are, if the tree starts at an offset. -/
def errorSpans (start : Nat) : Tree → List (Nat × Nat)
  | leaf _ => []
  | node kind children =>
      if kind = .error then (start, start + widthOf children) :: errorSpansIn start children
      else errorSpansIn start children

def errorSpansIn (start : Nat) : List Tree → List (Nat × Nat)
  | [] => []
  | first :: rest => first.errorSpans start ++ errorSpansIn (start + first.width) rest

end

@[simp]
theorem errorSpansIn_append (start : Nat) (first second : List Tree) :
    errorSpansIn start (first ++ second) =
      errorSpansIn start first ++ errorSpansIn (start + widthOf first) second := by
  induction first generalizing start with
  | nil => simp [errorSpansIn, widthOf]
  | cons tree rest inductionHypothesis =>
      simp [errorSpansIn, widthOf, inductionHypothesis, Nat.add_assoc]

@[simp]
theorem errorSpansIn_leaves (start : Nat) (tokens : List Token) :
    errorSpansIn start (leaves tokens) = [] := by
  induction tokens generalizing start with
  | nil => rfl
  | cons token rest inductionHypothesis =>
      exact inductionHypothesis (start + token.width)

mutual

theorem errorSpans_eq_nil_iff (start : Nat) :
    (tree : Tree) → (tree.errorSpans start = [] ↔ tree.hasError = false)
  | leaf token => by simp [errorSpans, hasError]
  | node kind children => by
      by_cases error : kind = .error
      · simp [errorSpans, hasError, error]
      · simp [errorSpans, hasError, error, errorSpansIn_eq_nil_iff start children]

theorem errorSpansIn_eq_nil_iff (start : Nat) :
    (row : List Tree) → (errorSpansIn start row = [] ↔ hasErrorIn row = false)
  | [] => by simp [errorSpansIn, hasErrorIn]
  | first :: rest => by
      simp [errorSpansIn, hasErrorIn, errorSpans_eq_nil_iff, errorSpansIn_eq_nil_iff]

end

end Tree

namespace Place

mutual

theorem errorSpans_preorder (above : List Frame) (start : Nat) : (tree : Tree) →
    (((preorder above start tree).filterMap node?).filter (·.kind == .error)).map
        (fun node => (node.start, node.stop)) =
      tree.errorSpans start
  | .leaf token => by simp [preorder, node?, Tree.errorSpans]
  | .node kind children => by
      have below := errorSpans_preorderOf kind start above [] start children
      by_cases error : kind = .error <;>
        simpa [preorder, node?, Tree.errorSpans, error, Node.stop, List.filterMap_cons] using below

theorem errorSpans_preorderOf (kind : NodeKind) (origin : Nat) (above : List Frame)
    (before : List Tree) (start : Nat) : (row : List Tree) →
    (((preorderOf kind origin above before start row).filterMap node?).filter
        (·.kind == .error)).map (fun node => (node.start, node.stop)) =
      Tree.errorSpansIn start row
  | [] => rfl
  | first :: rest => by
      simp only [preorderOf, List.filterMap_append, List.filter_append, List.map_append,
        Tree.errorSpansIn, errorSpans_preorder, errorSpans_preorderOf]

end

end Place

theorem Node.errorSpans_eq (node : Node) :
    (node.ofKind .error).map (fun error => (error.start, error.stop)) =
      node.tree.errorSpans node.start :=
  Place.errorSpans_preorder node.above node.start node.tree

/-- Error nodes hold tokens only, and error tokens are in error nodes only. -/
def ErrorsApart (kind : NodeKind) (children : List Tree) : Prop :=
  (kind = .error → ∀ child ∈ children, child.isNode = false) ∧
    (kind ≠ .error → ∀ token, .leaf token ∈ children → token.kind ≠ .error)

theorem errorsApart_error (tokens : List Token) : ErrorsApart .error (Tree.leaves tokens) := by
  refine ⟨?_, fun proper => absurd rfl proper⟩
  intro _ child membership
  obtain ⟨token, -, rfl⟩ := List.mem_map.mp membership
  rfl

theorem Blanks.kind_ne_error (blanks : Blanks) (token : Token)
    (membership : .leaf token ∈ Tree.leaves blanks.tokens) : token.kind ≠ .error := by
  intro error
  have trivia := blanks.trivia token (by simpa [Tree.leaves] using membership)
  simp [Token.isTrivia, error, TokenKind.isTrivia] at trivia

namespace Placed

variable {cursor rest : Cursor} {trees : List Tree}

/-- Error tokens are placed inside error nodes only. -/
theorem kind_ne_error (placed : Placed cursor trees rest) (token : Token)
    (membership : .leaf token ∈ trees) : token.kind ≠ .error := by
  induction placed with
  | nothing cursor => contradiction
  | blanks cursor => exact cursor.blanks.kind_ne_error token membership
  | @word cursor word more next proper =>
      rcases List.mem_append.mp membership with blank | placed
      · exact cursor.blanks.kind_ne_error token blank
      · simp_all
  | node | missing => simp at membership
  | @rejected cursor word more fault next =>
      exact cursor.blanks.kind_ne_error token (by simpa using membership)
  | @cut cursor tokens last start all =>
      exact cursor.blanks.kind_ne_error token (by simpa using membership)
  | append before after inductionBefore inductionAfter =>
      rcases List.mem_append.mp membership with first | second
      · exact inductionBefore first
      · exact inductionAfter second

/-- Each error has its error node. -/
theorem length_errors (placed : Placed cursor trees rest) :
    rest.errors.length = (Tree.errorSpansIn cursor.stop trees).length + cursor.errors.length := by
  induction placed with
  | nothing cursor => simp [Tree.errorSpansIn]
  | blanks cursor => simp
  | word next proper =>
      simp [Cursor.advanced_eq next, Tree.errorSpansIn, Tree.errorSpans]
  | node begun settled proper inside ended formed inductionHypothesis =>
      simpa [Tree.errorSpansIn, Tree.errorSpans, proper] using inductionHypothesis
  | missing cursor fault => simp [Tree.errorSpansIn, Tree.errorSpans, Nat.add_comm]
  | rejected fault next =>
      simp [Cursor.advanced_eq next, Tree.errorSpansIn, Tree.errorSpans, Nat.add_comm]
  | cut => simp [Tree.errorSpansIn, Tree.errorSpans, Nat.add_comm]
  | append before after inductionBefore inductionAfter =>
      rw [inductionAfter, inductionBefore, before.stop_eq, Tree.errorSpansIn_append,
        List.length_append]
      omega

/-- In a parse that was not cut off, the errors say where their error nodes are. -/
theorem spans_errors (placed : Placed cursor trees rest) (shallow : rest.tooDeep = false) :
    rest.errors.map (fun error => (error.start, error.stop)) =
      (Tree.errorSpansIn cursor.stop trees).reverse ++
        cursor.errors.map (fun error => (error.start, error.stop)) := by
  induction placed with
  | nothing cursor => simp [Tree.errorSpansIn]
  | blanks cursor => simp
  | word next proper =>
      simp [Cursor.advanced_eq next, Tree.errorSpansIn, Tree.errorSpans]
  | node begun settled proper inside ended formed inductionHypothesis =>
      simpa [Tree.errorSpansIn, Tree.errorSpans, proper] using inductionHypothesis shallow
  | missing cursor fault => simp [Tree.errorSpansIn, Tree.errorSpans, Tree.widthOf]
  | rejected fault next =>
      simp [Cursor.advanced_eq next, Tree.errorSpansIn, Tree.errorSpans, Tree.widthOf, Tree.width,
        Cursor.start, Cursor.nextStop, Cursor.nextText, next, Token.width]
  | cut => contradiction
  | append before after inductionBefore inductionAfter =>
      rw [inductionAfter shallow, inductionBefore (after.not_tooDeep shallow), before.stop_eq,
        Tree.errorSpansIn_append, List.reverse_append, List.append_assoc]

end Placed

namespace Parse

variable (text : Text)

theorem errorsApart_root : (ofText text).root.tree.Everywhere ErrorsApart := by
  obtain ⟨rest, placed, -⟩ := ofTokens_placed (Lexer.tokenize text)
  constructor
  · exact ⟨nofun, fun _ => placed.kind_ne_error⟩
  · apply placed.everywhere
    · intro deep
      contradiction
    · exact errorsApart_error
    · intro cursor rest kind children shallow proper inside formed
      exact ⟨fun error => absurd error proper, fun _ => inside.kind_ne_error⟩

theorem errorSpans_root :
    ((ofText text).root.ofKind .error).map (fun node => (node.start, node.stop)) =
      Tree.errorSpansIn 0 (ofText text).items := by
  rw [Node.errorSpans_eq]
  rfl

theorem length_errors :
    (ofText text).errors.length = ((ofText text).root.ofKind .error).length := by
  obtain ⟨rest, placed, -, errors, -⟩ := ofTokens_placed (Lexer.tokenize text)
  have spans := congrArg List.length (errorSpans_root text)
  rw [List.length_map] at spans
  rw [spans, ofText, errors, List.length_reverse, placed.length_errors]
  rfl

theorem hasError_root : (ofText text).root.hasError = true ↔ (ofText text).errors ≠ [] := by
  have counted := length_errors text
  have spans := congrArg List.length (Node.errorSpans_eq (ofText text).root)
  rw [List.length_map, ← counted] at spans
  rw [Node.hasError, ← Bool.not_eq_false, ← Tree.errorSpans_eq_nil_iff (ofText text).root.start,
    ← List.length_eq_zero_iff, ← spans, List.length_eq_zero_iff]

theorem spans_errors (shallow : (ofText text).tooDeep = false) :
    (ofText text).errors.map (fun error => (error.start, error.stop)) =
      ((ofText text).root.ofKind .error).map (fun node => (node.start, node.stop)) := by
  obtain ⟨rest, placed, -, errors, tooDeep, -⟩ := ofTokens_placed (Lexer.tokenize text)
  have spans := placed.spans_errors (tooDeep ▸ shallow)
  rw [errorSpans_root, ofText, errors, List.map_reverse, spans]
  simp [Cursor.ofTokens]

theorem childNodes_error {node : Node} (error : node ∈ (ofText text).root.ofKind .error) :
    node.childNodes = [] := by
  obtain ⟨visited, kind⟩ := List.mem_filter.mp error
  have apart := Node.holds_of_descendant (errorsApart_root text) visited
  have children := node.map_childNodes
  rw [List.filter_eq_nil_iff.mpr] at children
  · exact List.map_eq_nil_iff.mp children
  · intro child membership
    simp [apart.1 (by simpa using kind) child membership]

theorem errorNode_of_errorToken {leaf : Leaf} (visited : leaf ∈ (ofText text).root.leaves)
    (error : leaf.kind = .error) :
    ∃ parent ∈ (ofText text).root.ofKind .error, leaf ∈ parent.childLeaves := by
  obtain ⟨parent, below, membership⟩ := Node.parent_of_leaf visited
  have apart := Node.holds_of_descendant (errorsApart_root text) below
  have child : .leaf leaf.token ∈ parent.children := by
    have placed := List.mem_map_of_mem (f := (Tree.leaf ·.token)) membership
    rw [parent.map_childLeaves] at placed
    exact (List.mem_filter.mp placed).1
  have kind : parent.kind = .error := by
    by_cases proper : parent.kind = .error
    · exact proper
    · exact absurd error (apart.2 proper leaf.token child)
  exact ⟨parent, List.mem_filter.mpr ⟨below, by simpa using kind⟩, membership⟩

/-- In a report that has room for them, the syntax errors are the errors of the parse. -/
theorem ranges_diagnose (small : text.bytes < UInt32.size)
    (shallow : (ofText text).tooDeep = false) {settings : Settings}
    (room : (ofText text).errors.length ≤ settings.problemLimit) :
    ((diagnose text settings).filter Diagnostic.isSyntaxError).map Diagnostic.range =
      (ofText text).errors.map fun error =>
        (LineIndex.ofText text).range error.start error.stop := by
  have parsed := Document.ofText_of_shallow small shallow
  have all : (Document.syntaxErrors ⟨text, ofText text, .ofText text⟩).length ≤
      settings.problemLimit := by
    rw [Document.syntaxErrors, List.length_map]
    exact length_errors text ▸ room
  have spans := congrArg (List.map fun span => (LineIndex.ofText text).range span.1 span.2)
    (spans_errors text shallow)
  rw [List.map_map, List.map_map] at spans
  rw [filter_diagnose parsed, List.take_of_length_le all, Document.syntaxErrors, List.map_map]
  exact spans.symm

/-- The errors of a parse are as many as its error nodes, which hold tokens only and every error
token. Unless the parse was cut off, the errors are where the error nodes are, in the same order,
and a report shows them so if the text is not too large for one. -/
theorem errors_agree_with_nodes :
    (ofText text).errors.length = ((ofText text).root.ofKind .error).length ∧
      (∀ node ∈ (ofText text).root.ofKind .error, node.childNodes = []) ∧
      (∀ leaf ∈ (ofText text).root.leaves, leaf.kind = .error →
        ∃ parent ∈ (ofText text).root.ofKind .error, leaf ∈ parent.childLeaves) ∧
      (Document.hasErrors ⟨text, ofText text, .ofText text⟩ = true ↔ (ofText text).errors ≠ []) ∧
      ((ofText text).tooDeep = false →
        (ofText text).errors.map (fun error => (error.start, error.stop)) =
            ((ofText text).root.ofKind .error).map (fun node => (node.start, node.stop)) ∧
          (text.bytes < UInt32.size →
            ∀ settings : Settings, (ofText text).errors.length ≤ settings.problemLimit →
              ((diagnose text settings).filter Diagnostic.isSyntaxError).map Diagnostic.range =
                (ofText text).errors.map fun error =>
                  (LineIndex.ofText text).range error.start error.stop)) := by
  refine ⟨length_errors text, ?_, ?_, hasError_root text, ?_⟩
  · intro node error
    exact childNodes_error text error
  · intro leaf visited error
    exact errorNode_of_errorToken text visited error
  · intro shallow
    refine ⟨spans_errors text shallow, ?_⟩
    intro small settings room
    exact ranges_diagnose text small shallow room

/-- A list with a character that starts no token and without its closing bracket: two errors. -/
theorem errors_agree_with_nodes_unclosed :
    (ofText ['[', '1', ' ', '$']).tooDeep = false ∧
      (ofText ['[', '1', ' ', '$']).errors.length = 2 ∧
      ((diagnose ['[', '1', ' ', '$'] .default).filter Diagnostic.isSyntaxError).map
          Diagnostic.range =
        (ofText ['[', '1', ' ', '$']).errors.map fun error =>
          (LineIndex.ofText ['[', '1', ' ', '$']).range error.start error.stop := by
  have shallow : (ofText ['[', '1', ' ', '$']).tooDeep = false := by decide +kernel
  have two : (ofText ['[', '1', ' ', '$']).errors.length = 2 := by decide +kernel
  obtain ⟨-, -, -, -, agreement⟩ := errors_agree_with_nodes ['[', '1', ' ', '$']
  have room : (ofText ['[', '1', ' ', '$']).errors.length ≤ Settings.default.problemLimit := by
    rw [two]
    decide
  exact ⟨shallow, two, (agreement shallow).2 (by decide) .default room⟩

end Parse

end Scrapscript
