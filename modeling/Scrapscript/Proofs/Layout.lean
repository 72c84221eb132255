import Scrapscript.Proofs.Grammar.Alike

/-!
What the structure of a document rests on: the kinds of its significant tokens, and for some of its
identifiers whether they begin a line. White space, comments and spelling add nothing to that.
-/

namespace Scrapscript

namespace Token

/-- The kinds of the significant tokens of a run, each with whether a line breaks in the trivia
right before it. -/
def layoutAfter (broken : Bool) : List Token → List (TokenKind × Bool)
  | [] => []
  | token :: rest =>
      if token.isTrivia then layoutAfter (broken || token.breaksLine) rest
      else (token.kind, broken) :: layoutAfter false rest

def layout (tokens : List Token) : List (TokenKind × Bool) :=
  layoutAfter false tokens

/-- Whether it matters if a line breaks before the token at an index: that is an identifier, and it
comes after a hash or before an equals sign. -/
def breakMatters (layout : List (TokenKind × Bool)) (index : Nat) : Bool :=
  layout[index]?.map Prod.fst == some .ident &&
    (0 < index && layout[index - 1]?.map Prod.fst == some .hash
      || layout[index + 1]?.map Prod.fst == some .equals)

/-- Layouts of the same kinds that agree on the line breaks that matter. -/
structure SameLayout (layout other : List (TokenKind × Bool)) : Prop where
  kinds : layout.map Prod.fst = other.map Prod.fst
  breaks : ∀ index < layout.length, breakMatters layout index = true →
    layout[index]? = other[index]?

end Token

namespace Word

/-- The layout of some words, the first of them after a line break or not. -/
def layoutAfter (broken : Bool) : List Word → List (TokenKind × Bool)
  | [] => []
  | word :: more =>
      (word.token.kind, broken) :: layoutAfter (word.after.tokens.any Token.breaksLine) more

theorem layoutAfter_group (broken : Bool) (tokens : List Token) :
    Token.layoutAfter broken tokens =
      layoutAfter (broken || (group tokens).1.tokens.any Token.breaksLine) (group tokens).2 := by
  induction tokens generalizing broken with
  | nil => rfl
  | cons token rest inductionHypothesis =>
      cases trivia : token.isTrivia with
      | true =>
          simp [Token.layoutAfter, group, trivia, Blanks.cons, inductionHypothesis, Bool.or_assoc]
      | false =>
          simp [Token.layoutAfter, group, trivia, Blanks.empty, layoutAfter, inductionHypothesis]

theorem kind_layoutAfter (broken : Bool) (words : List Word) (index : Nat) :
    (layoutAfter broken words)[index]?.map Prod.fst = words[index]?.map (·.token.kind) := by
  induction words generalizing broken index with
  | nil => rfl
  | cons word more inductionHypothesis =>
      cases index with
      | zero => rfl
      | succ index => simpa [layoutAfter] using inductionHypothesis _ index

variable {broken otherBroken : Bool} {words others : List Word}

theorem breakMatters_zero (declares : Declares words) :
    Token.breakMatters (layoutAfter broken words) 0 = true := by
  obtain ⟨ident, equals⟩ := declares
  rw [List.head?_eq_getElem?] at ident equals
  rw [List.getElem?_tail] at equals
  simp [Token.breakMatters, kind_layoutAfter, ident, equals]

theorem breakMatters_one {word : Word} (heeds : Heeds word words) :
    Token.breakMatters (layoutAfter broken (word :: words)) 1 = true := by
  simp only [Token.breakMatters, kind_layoutAfter]
  rcases heeds with ⟨hash, ident⟩ | ⟨ident, equals⟩
  · rw [List.head?_eq_getElem?] at ident
    simp [hash, ident]
  · rw [List.head?_eq_getElem?] at ident equals
    rw [List.getElem?_tail] at equals
    simp [ident, equals]

theorem breakMatters_succ {word : Word} {index : Nat}
    (matters : Token.breakMatters (layoutAfter otherBroken words) index = true) :
    Token.breakMatters (layoutAfter broken (word :: words)) (index + 1) = true := by
  cases index with
  | zero =>
      simp only [Token.breakMatters, kind_layoutAfter] at matters ⊢
      simp_all
  | succ index =>
      simp only [Token.breakMatters, kind_layoutAfter] at matters ⊢
      simpa using matters

/-- The first of some words shows whether it comes after a line break. -/
theorem broken_eq {word other : Word}
    (same : (layoutAfter broken (word :: words))[0]? =
      (layoutAfter otherBroken (other :: others))[0]?) : broken = otherBroken := by
  simp only [layoutAfter, List.getElem?_cons_zero, Option.some.injEq, Prod.mk.injEq] at same
  exact same.2

/-- Words with the same layout are alike. -/
theorem alike_of_sameLayout
    (same : Token.SameLayout (layoutAfter broken words) (layoutAfter otherBroken others)) :
    Alike words others := by
  induction words generalizing broken otherBroken others with
  | nil =>
      have kinds := same.kinds
      cases others with
      | nil => exact .nil
      | cons other others => simp [layoutAfter] at kinds
  | cons word words inductionHypothesis =>
      have kinds := same.kinds
      cases others with
      | nil => simp [layoutAfter] at kinds
      | cons other others =>
          simp only [layoutAfter, List.map_cons, List.cons.injEq] at kinds
          refine .cons kinds.1 (inductionHypothesis ⟨kinds.2, ?_⟩) ?_
          · intro index inside matters
            exact same.breaks (index + 1) (by simpa [layoutAfter] using inside)
              (breakMatters_succ matters)
          · intro heeds
            have matters : Token.breakMatters (layoutAfter broken (word :: words)) 1 = true :=
              breakMatters_one heeds
            cases words with
            | nil => simp [Heeds, Declares] at heeds
            | cons next words =>
                cases others with
                | nil => simp [layoutAfter] at kinds
                | cons otherNext others =>
                    have next := same.breaks 1 (by simp [layoutAfter]) matters
                    simp only [layoutAfter, List.getElem?_cons_succ] at next
                    exact broken_eq next

end Word

namespace Cursor

theorem alike_of_sameLayout {tokens others : List Token}
    (same : Token.SameLayout (Token.layout tokens) (Token.layout others)) :
    (ofTokens tokens).Alike (ofTokens others) := by
  have words : Token.SameLayout
      (Word.layoutAfter (ofTokens tokens).afterLineBreak (ofTokens tokens).words)
      (Word.layoutAfter (ofTokens others).afterLineBreak (ofTokens others).words) := by
    rw [Token.layout, Token.layout, Word.layoutAfter_group, Word.layoutAfter_group] at same
    exact same
  have alike := Word.alike_of_sameLayout words
  refine ⟨alike, ?_, rfl, rfl⟩
  intro declares
  have matters : Token.breakMatters
      (Word.layoutAfter (ofTokens tokens).afterLineBreak (ofTokens tokens).words) 0 = true :=
    Word.breakMatters_zero declares
  generalize (ofTokens tokens).afterLineBreak = broken at words matters ⊢
  generalize (ofTokens others).afterLineBreak = otherBroken at words ⊢
  generalize (ofTokens tokens).words = these at words matters alike declares
  generalize (ofTokens others).words = those at words alike
  cases alike with
  | nil => simp [Word.Declares] at declares
  | cons kind later breaks =>
      exact Word.broken_eq (words.breaks 0 (by simp [Word.layoutAfter]) matters)

end Cursor

namespace Parse

/-- Documents with the same layout are parsed alike: both are cut off or neither is, they have as
many errors, and their trees have the same skeleton. -/
theorem skeleton_eq_of_layout {text other : Text}
    (same : Token.SameLayout (Token.layout (Lexer.tokenize text))
      (Token.layout (Lexer.tokenize other))) :
    (ofText text).tooDeep = (ofText other).tooDeep ∧
      (ofText text).errors.length = (ofText other).errors.length ∧
      (ofText text).tree.skeleton = (ofText other).tree.skeleton := by
  have parsed := Grammar.sourceFile_uniform (Cursor.alike_of_sameLayout same)
  refine ⟨parsed.rest.tooDeep, ?_, ?_⟩
  · simpa [ofText, ofTokens] using parsed.rest.errors
  · simp [Tree.skeleton, Tree.condensed, tree, ofText, ofTokens, parsed.trees]

/-- A tag and a declaration on a line of its own, spelled and spaced in two ways. -/
theorem skeleton_eq_of_layout_respelled :
    Token.SameLayout
        (Token.layout (Lexer.tokenize ['a', '=', '#', 'b', '\n', 'c', '=', '1', ' ', '$']))
        (Token.layout (Lexer.tokenize
          ['x', ' ', '=', '#', ' ', 'y', '-', '-', 'n', '\n', ' ', 'z', '=', '2', '\n', '@'])) ∧
      (ofText ['a', '=', '#', 'b', '\n', 'c', '=', '1', ' ', '$']).tree.skeleton =
        (ofText ['x', ' ', '=', '#', ' ', 'y', '-', '-', 'n', '\n', ' ', 'z', '=', '2', '\n',
          '@']).tree.skeleton := by
  have same : Token.SameLayout
      (Token.layout (Lexer.tokenize ['a', '=', '#', 'b', '\n', 'c', '=', '1', ' ', '$']))
      (Token.layout (Lexer.tokenize
        ['x', ' ', '=', '#', ' ', 'y', '-', '-', 'n', '\n', ' ', 'z', '=', '2', '\n', '@'])) :=
    ⟨by decide +kernel, by decide +kernel⟩
  exact ⟨same, (skeleton_eq_of_layout same).2.2⟩

end Parse

end Scrapscript
