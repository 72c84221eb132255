import Scrapscript.Proofs.Grammar.Production

/-!
Rows of siblings: how the leaves, the width and the errors of a row follow from its parts, and what
is left of it without its white space and comments.
-/

namespace Scrapscript

namespace Token

@[simp]
theorem widthOf_append (first second : List Token) :
    widthOf (first ++ second) = widthOf first + widthOf second := by
  induction first with
  | nil => simp [widthOf]
  | cons token rest inductionHypothesis =>
      simp only [List.cons_append, widthOf, inductionHypothesis]
      omega

theorem textOf_append (first second : List Token) :
    textOf (first ++ second) = textOf first ++ textOf second := by
  simp [textOf]

end Token

namespace Tree

@[simp]
theorem tokensOf_append (first second : List Tree) :
    tokensOf (first ++ second) = tokensOf first ++ tokensOf second := by
  induction first with
  | nil => simp [tokensOf]
  | cons tree rest inductionHypothesis =>
      simp [tokensOf, inductionHypothesis]

@[simp]
theorem tokensOf_leaves (tokens : List Token) : tokensOf (leaves tokens) = tokens := by
  induction tokens with
  | nil => rfl
  | cons token rest inductionHypothesis =>
      simpa [leaves, tokensOf, Tree.tokens] using inductionHypothesis

@[simp]
theorem widthOf_append (first second : List Tree) :
    widthOf (first ++ second) = widthOf first + widthOf second := by
  induction first with
  | nil => simp [widthOf]
  | cons tree rest inductionHypothesis =>
      simp only [List.cons_append, widthOf, inductionHypothesis]
      omega

theorem width_le_widthOf {row : List Tree} {tree : Tree} (listed : tree ∈ row) :
    tree.width ≤ widthOf row := by
  obtain ⟨before, after, rfl⟩ := List.append_of_mem listed
  rw [widthOf_append, widthOf]
  omega

mutual

/-- A tree is as wide as its leaves together. -/
theorem width_eq : (tree : Tree) → tree.width = Token.widthOf tree.tokens
  | leaf token => by simp [width, Tree.tokens, Token.widthOf]
  | node _ children => by simpa [width, Tree.tokens] using widthOf_eq children

theorem widthOf_eq : (row : List Tree) → widthOf row = Token.widthOf (tokensOf row)
  | [] => rfl
  | first :: rest => by
      simp [widthOf, tokensOf, width_eq first, widthOf_eq rest]

end

@[simp]
theorem widthOf_leaves (tokens : List Token) : widthOf (leaves tokens) = Token.widthOf tokens := by
  rw [widthOf_eq, tokensOf_leaves]

@[simp]
theorem hasErrorIn_append (first second : List Tree) :
    hasErrorIn (first ++ second) = (hasErrorIn first || hasErrorIn second) := by
  induction first with
  | nil => simp [hasErrorIn]
  | cons tree rest inductionHypothesis =>
      simp [hasErrorIn, inductionHypothesis, Bool.or_assoc]

theorem hasErrorIn_eq_false_iff (row : List Tree) :
    hasErrorIn row = false ↔ ∀ tree ∈ row, tree.hasError = false := by
  induction row with
  | nil => simp [hasErrorIn]
  | cons tree rest inductionHypothesis =>
      simp [hasErrorIn, inductionHypothesis]

@[simp]
theorem withoutTrivia_nil : withoutTrivia [] = [] := rfl

@[simp]
theorem withoutTrivia_append (first second : List Tree) :
    withoutTrivia (first ++ second) = withoutTrivia first ++ withoutTrivia second := by
  simp [withoutTrivia]

@[simp]
theorem withoutTrivia_blanks (blanks : Blanks) : withoutTrivia (leaves blanks.tokens) = [] := by
  simp only [withoutTrivia, leaves, List.filter_eq_nil_iff, List.mem_map]
  intro tree listed
  obtain ⟨token, membership, rfl⟩ := listed
  simp [isTrivia, blanks.trivia token membership]

@[simp]
theorem withoutTrivia_node (kind : NodeKind) (children rest : List Tree) :
    withoutTrivia (node kind children :: rest) = node kind children :: withoutTrivia rest := by
  simp [withoutTrivia, isTrivia]

theorem withoutTrivia_leaf (token : Token) (rest : List Tree) :
    withoutTrivia (leaf token :: rest) =
      if token.isTrivia then withoutTrivia rest else leaf token :: withoutTrivia rest := by
  by_cases trivia : token.isTrivia = true <;> simp [withoutTrivia, isTrivia, trivia]

@[simp]
theorem withoutTrivia_word (word : Word) (rest : List Tree) :
    withoutTrivia (leaf word.token :: rest) = leaf word.token :: withoutTrivia rest := by
  simp [withoutTrivia_leaf, word.significant]

@[simp]
theorem hasErrorIn_withoutTrivia (row : List Tree) :
    hasErrorIn (withoutTrivia row) = hasErrorIn row := by
  induction row with
  | nil => rfl
  | cons tree rest inductionHypothesis =>
      cases tree with
      | node kind children => simp [hasErrorIn, inductionHypothesis]
      | leaf token =>
          by_cases trivia : token.isTrivia = true <;>
            simp [withoutTrivia_leaf, trivia, hasErrorIn, hasError, inductionHypothesis]

/-- A row that does not end with white space or a comment. -/
def Trimmed (row : List Tree) : Prop :=
  ∀ last ∈ row.getLast?, last.isTrivia = false

/-- A row that ends with a node or a significant token. -/
def Ended (row : List Tree) : Prop :=
  ∃ last ∈ row.getLast?, last.isTrivia = false

theorem trimmed_nil : Trimmed [] :=
  nofun

theorem trimmed_concat (before : List Tree) {last : Tree} (significant : last.isTrivia = false) :
    Trimmed (before ++ [last]) := by
  simpa [Trimmed] using significant

theorem Trimmed.append {first second : List Tree} (trimmed : Trimmed first)
    (others : Trimmed second) : Trimmed (first ++ second) := by
  intro last ends
  rw [List.getLast?_append] at ends
  cases final : second.getLast? with
  | none => exact trimmed last (by simpa [final] using ends)
  | some tree => exact others last (by simpa [final] using ends)

theorem Trimmed.ended {row : List Tree} (trimmed : Trimmed row) (filled : row ≠ []) : Ended row :=
  ⟨row.getLast filled, List.getLast?_eq_some_getLast filled,
    trimmed _ (List.getLast?_eq_some_getLast filled)⟩

theorem isTrivia_eq_false {tree : Tree} (isNode : tree.isNode = true) : tree.isTrivia = false := by
  cases tree with
  | leaf => contradiction
  | node => rfl

theorem significantTokens_withoutTrivia (row : List Tree) :
    significantTokens (withoutTrivia row) = significantTokens row := by
  induction row with
  | nil => rfl
  | cons tree rest inductionHypothesis =>
      cases tree with
      | node kind children => simp [significantTokens, inductionHypothesis]
      | leaf token =>
          by_cases trivia : token.isTrivia = true <;>
            simp [withoutTrivia_leaf, trivia, significantTokens, inductionHypothesis]

@[simp]
theorem nodes_nil : nodes [] = [] := rfl

@[simp]
theorem nodes_leaf (token : Token) (row : List Tree) : nodes (leaf token :: row) = nodes row := rfl

theorem nodes_cons {tree : Tree} (isNode : tree.isNode = true) (row : List Tree) :
    nodes (tree :: row) = tree :: nodes row :=
  List.filter_cons_of_pos isNode

theorem nodes_withoutTrivia (row : List Tree) : nodes (withoutTrivia row) = nodes row := by
  rw [nodes, withoutTrivia, List.filter_filter]
  apply List.filter_congr
  intro tree _
  cases tree with
  | leaf => simp [isNode]
  | node => simp [isNode, isTrivia]

theorem any_isToken_withoutTrivia {kind : TokenKind} (significant : kind.isTrivia = false)
    (row : List Tree) : (withoutTrivia row).any (isToken kind) = row.any (isToken kind) := by
  rw [withoutTrivia, List.any_filter]
  apply congrArg (List.any row)
  funext tree
  cases tree with
  | node => simp [isToken, isTokenOf]
  | leaf token =>
      by_cases same : token.kind = kind
      · simp [isToken, isTokenOf, isTrivia, Token.isTrivia, same, significant]
      · simp [isToken, isTokenOf, same]

theorem isNode_of_isNodeOf {accepts : NodeKind → Bool} {tree : Tree}
    (isNodeOf : tree.isNodeOf accepts = true) : tree.isNode = true := by
  cases tree with
  | leaf => contradiction
  | node => rfl

theorem findSome?_operator?_withoutTrivia (row : List Tree) :
    (withoutTrivia row).findSome? operator? = row.findSome? operator? := by
  induction row with
  | nil => rfl
  | cons tree rest inductionHypothesis =>
      cases tree with
      | node kind children => simp [List.findSome?_cons, inductionHypothesis]
      | leaf token =>
          by_cases trivia : token.isTrivia = true <;>
            simp [withoutTrivia_leaf, trivia, operator?, List.findSome?_cons, inductionHypothesis]

end Tree

end Scrapscript
