import Scrapscript.Proofs.Tree.Row

/-!
Trees without their white space and comments. What is left of a tree then is its structure and its
significant tokens, with their spelling or without.
-/

namespace Scrapscript

/-- A token that is known by its kind only. -/
def Token.unspelled (token : Token) : Token :=
  ⟨token.kind, []⟩

namespace Tree

mutual

/-- A tree without its trivia, its other tokens rewritten. -/
def condensed (write : Token → Token) : Tree → Tree
  | leaf token => leaf (write token)
  | node kind children => node kind (condensedOf write children)

def condensedOf (write : Token → Token) : List Tree → List Tree
  | [] => []
  | first :: rest =>
      if first.isTrivia then condensedOf write rest
      else first.condensed write :: condensedOf write rest

end

/-- A tree without its trivia. -/
def bare (tree : Tree) : Tree :=
  tree.condensed id

/-- A tree without its trivia and without the spelling of its tokens. -/
def skeleton (tree : Tree) : Tree :=
  tree.condensed Token.unspelled

variable (write : Token → Token)

@[simp]
theorem condensedOf_nil : condensedOf write [] = [] := by
  rw [condensedOf]

@[simp]
theorem condensedOf_node (kind : NodeKind) (children rest : List Tree) :
    condensedOf write (node kind children :: rest) =
      node kind (condensedOf write children) :: condensedOf write rest := by
  simp [condensedOf, condensed, isTrivia]

@[simp]
theorem condensedOf_word (word : Word) (rest : List Tree) :
    condensedOf write (leaf word.token :: rest) =
      leaf (write word.token) :: condensedOf write rest := by
  simp [condensedOf, condensed, isTrivia, word.significant]

@[simp]
theorem condensedOf_append (first second : List Tree) :
    condensedOf write (first ++ second) =
      condensedOf write first ++ condensedOf write second := by
  induction first with
  | nil => simp
  | cons tree rest inductionHypothesis =>
      by_cases trivia : tree.isTrivia = true <;> simp [condensedOf, trivia, inductionHypothesis]

theorem condensedOf_cons (tree : Tree) (rest : List Tree) :
    condensedOf write (tree :: rest) = condensedOf write [tree] ++ condensedOf write rest :=
  condensedOf_append write [tree] rest

@[simp]
theorem condensedOf_blanks (blanks : Blanks) :
    condensedOf write (leaves blanks.tokens) = [] := by
  obtain ⟨tokens, trivia⟩ := blanks
  induction tokens with
  | nil => simp [leaves]
  | cons token rest inductionHypothesis =>
      have first : token.isTrivia = true := trivia token (by simp)
      have others := inductionHypothesis fun other later => trivia other (by simp [later])
      simpa [leaves, condensedOf, isTrivia, first] using others

/-- The nodes of a row are kept when its trivia is left out. -/
theorem filter_isNode_condensedOf (row : List Tree) :
    (condensedOf id row).filter isNode = (row.filter isNode).map bare := by
  induction row with
  | nil => simp
  | cons first rest inductionHypothesis =>
      cases first with
      | leaf token =>
          cases trivia : token.isTrivia <;>
            simp [condensedOf, condensed, isTrivia, isNode, trivia, inductionHypothesis]
      | node kind children =>
          simp [List.filter_cons, isNode, bare, condensed, inductionHypothesis]

end Tree

end Scrapscript
