import Scrapscript.Proofs.Tree.Place

/-!
The moves of a parse. Whatever the grammar does, it does by placing blanks, words, nodes around what
was placed and error nodes, one after the other. `Placed` describes such a run from one cursor to
another together with the trees it leaves behind; what every run preserves is proved once, by
induction on the moves.
-/

namespace Scrapscript

namespace Cursor

@[simp]
theorem settled_blanks (cursor : Cursor) : cursor.settled.blanks = .empty := rfl

@[simp]
theorem settled_words (cursor : Cursor) : cursor.settled.words = cursor.words := rfl

@[simp]
theorem settled_errors (cursor : Cursor) : cursor.settled.errors = cursor.errors := rfl

@[simp]
theorem settled_tooDeep (cursor : Cursor) : cursor.settled.tooDeep = cursor.tooDeep := rfl

@[simp]
theorem settled_stop (cursor : Cursor) :
    cursor.settled.stop = cursor.stop + Token.widthOf cursor.blanks.tokens := rfl

@[simp]
theorem empty_tokens : Blanks.empty.tokens = [] := rfl

@[simp]
theorem settled_start (cursor : Cursor) : cursor.settled.start = cursor.start := by
  simp [start, Token.widthOf]

@[simp]
theorem settled_settled (cursor : Cursor) : cursor.settled.settled = cursor.settled := by
  simp only [settled, start, empty_tokens, Token.widthOf, Nat.add_zero]

@[simp]
theorem settled_kind? (cursor : Cursor) : cursor.settled.kind? = cursor.kind? := rfl

@[simp]
theorem settled_seesExpression (cursor : Cursor) :
    cursor.settled.seesExpression = cursor.seesExpression := rfl

@[simp]
theorem report_blanks (cursor : Cursor) (fault : SyntaxFault) (start stop : Nat) :
    (cursor.report fault start stop).blanks = cursor.blanks := rfl

@[simp]
theorem report_words (cursor : Cursor) (fault : SyntaxFault) (start stop : Nat) :
    (cursor.report fault start stop).words = cursor.words := rfl

@[simp]
theorem report_stop (cursor : Cursor) (fault : SyntaxFault) (start stop : Nat) :
    (cursor.report fault start stop).stop = cursor.stop := rfl

@[simp]
theorem report_tooDeep (cursor : Cursor) (fault : SyntaxFault) (start stop : Nat) :
    (cursor.report fault start stop).tooDeep = cursor.tooDeep := rfl

@[simp]
theorem report_errors (cursor : Cursor) (fault : SyntaxFault) (start stop : Nat) :
    (cursor.report fault start stop).errors = ⟨fault, start, stop⟩ :: cursor.errors := rfl

@[simp]
theorem report_start (cursor : Cursor) (fault : SyntaxFault) (start stop : Nat) :
    (cursor.report fault start stop).start = cursor.start := rfl

@[simp]
theorem report_remaining (cursor : Cursor) (fault : SyntaxFault) (start stop : Nat) :
    (cursor.report fault start stop).remaining = cursor.remaining := rfl

theorem advanced_eq {cursor : Cursor} {word : Word} {more : List Word}
    (next : cursor.words = word :: more) :
    cursor.advanced = { cursor with
      blanks := word.after, words := more, stop := cursor.start + word.token.width } := by
  simp [advanced, next]

@[simp]
theorem settled_advanced (cursor : Cursor) : cursor.settled.advanced = cursor.advanced := by
  cases next : cursor.words with
  | nil => simp [advanced, next]
  | cons word more =>
      have settledNext : cursor.settled.words = word :: more := next
      rw [advanced_eq next, advanced_eq settledNext, settled_start]
      rfl

@[simp]
theorem report_advanced (cursor : Cursor) (fault : SyntaxFault) (start stop : Nat) :
    (cursor.report fault start stop).advanced = cursor.advanced.report fault start stop := by
  cases next : cursor.words with
  | nil => simp [advanced, next, settled, report, Cursor.start]
  | cons word more =>
      have reportedNext : (cursor.report fault start stop).words = word :: more := next
      rw [advanced_eq next, advanced_eq reportedNext, report_start]
      rfl

@[simp]
theorem advanced_tooDeep (cursor : Cursor) : cursor.advanced.tooDeep = cursor.tooDeep := by
  unfold advanced
  split <;> rfl

theorem remaining_settled (cursor : Cursor) :
    cursor.blanks.tokens ++ cursor.settled.remaining = cursor.remaining := by
  simp [remaining]

theorem remaining_advanced {cursor : Cursor} {word : Word} {more : List Word}
    (next : cursor.words = word :: more) :
    cursor.blanks.tokens ++ word.token :: cursor.advanced.remaining = cursor.remaining := by
  rw [advanced_eq next]
  simp [remaining, next]

/-- The significant tokens that are left are the words. -/
theorem countP_remaining (cursor : Cursor) :
    cursor.remaining.countP (! ·.isTrivia) = cursor.words.length := by
  have blank (blanks : Blanks) : blanks.tokens.countP (! ·.isTrivia) = 0 := by
    rw [List.countP_eq_zero]
    intro token membership
    simp [blanks.trivia token membership]
  rw [remaining, List.countP_append, blank, Nat.zero_add]
  induction cursor.words with
  | nil => rfl
  | cons word more inductionHypothesis =>
      simp [List.countP_append, blank, word.significant, inductionHypothesis]

theorem remaining_ofTokens (tokens : List Token) : (ofTokens tokens).remaining = tokens := by
  induction tokens with
  | nil => rfl
  | cons token rest inductionHypothesis =>
      by_cases trivia : token.isTrivia = true <;>
        simpa [ofTokens, remaining, Word.group, trivia, Blanks.cons, Blanks.empty] using
          inductionHypothesis

end Cursor

/-- What the grammar says of a node: its row of children is allowed, error nodes standing for
missing pieces, and the row is grouped as it should be if nothing is wrong in it. What comes first
in a compound was found before the rest, so that it is not missing. -/
structure Formed (kind : NodeKind) (row : List Tree) : Prop where
  allowed : Grammar.allows Tree.isError kind row = true
  grouped : Tree.hasErrorIn row = false → Grammar.groups kind row = true
  led : kind.isCompound = true → ∀ first ∈ row.head?, Tree.isError first = false

/-- The trees that a parse may leave behind on its way from one cursor to another. -/
inductive Placed : Cursor → List Tree → Cursor → Prop
  | nothing (cursor : Cursor) : Placed cursor [] cursor
  | blanks (cursor : Cursor) : Placed cursor (Tree.leaves cursor.blanks.tokens) cursor.settled
  | word {cursor : Cursor} {word : Word} {more : List Word}
      (next : cursor.words = word :: more) (proper : word.token.kind ≠ .error) :
      Placed cursor (Tree.leaves cursor.blanks.tokens ++ [.leaf word.token]) cursor.advanced
  /-- A node starts right at a word and leaves the blanks after its last piece to what follows. A
  parse that was not cut off leaves it well formed. -/
  | node {cursor rest : Cursor} {kind : NodeKind} {children : List Tree}
      (begun : cursor.words ≠ []) (settled : cursor.blanks = .empty) (proper : kind ≠ .error)
      (inside : Placed cursor children rest) (ended : Tree.Ended children)
      (formed : rest.tooDeep = false → Formed kind (Tree.withoutTrivia children)) :
      Placed cursor [.node kind children] rest
  | missing (cursor : Cursor) (fault : SyntaxFault) :
      Placed cursor [.node .error []] (cursor.report fault cursor.stop cursor.stop)
  | rejected {cursor : Cursor} {word : Word} {more : List Word} (fault : SyntaxFault)
      (next : cursor.words = word :: more) :
      Placed cursor
        (Tree.leaves cursor.blanks.tokens ++ [.node .error [.leaf word.token]])
        (cursor.report fault cursor.start cursor.nextStop).advanced
  /-- The nesting limit: one error node takes all words that are left. -/
  | cut {cursor : Cursor} {tokens : List Token} {last : Blanks} (start : Nat)
      (all : tokens ++ last.tokens = cursor.settled.remaining) :
      Placed cursor
        (Tree.leaves cursor.blanks.tokens ++ [.node .error (Tree.leaves tokens)])
        ⟨last, [], cursor.start + Token.widthOf tokens,
          ⟨.nestedTooDeeply, start, cursor.start + Token.widthOf tokens⟩ :: cursor.errors, true⟩
  | append {cursor middle rest : Cursor} {first second : List Tree}
      (before : Placed cursor first middle) (after : Placed middle second rest) :
      Placed cursor (first ++ second) rest

namespace Placed

variable {cursor rest : Cursor} {trees : List Tree}

/-- No token is lost, repeated or moved. -/
theorem tokens (placed : Placed cursor trees rest) :
    Tree.tokensOf trees ++ rest.remaining = cursor.remaining := by
  induction placed with
  | nothing cursor => rfl
  | blanks cursor => simpa using cursor.remaining_settled
  | word next proper =>
      simpa [Tree.tokensOf, Tree.tokens] using Cursor.remaining_advanced next
  | node begun settled proper inside ended formed inductionHypothesis =>
      simpa [Tree.tokensOf, Tree.tokens] using inductionHypothesis
  | missing cursor fault => simp [Tree.tokensOf, Tree.tokens, Cursor.remaining]
  | rejected fault next =>
      simpa [Tree.tokensOf, Tree.tokens] using Cursor.remaining_advanced next
  | @cut cursor tokens last start all =>
      have settled := cursor.remaining_settled
      rw [← all] at settled
      simpa [Tree.tokensOf, Tree.tokens, Cursor.remaining] using settled
  | append before after inductionBefore inductionAfter =>
      rw [Tree.tokensOf_append, List.append_assoc, inductionAfter, inductionBefore]

/-- The cursor moves by the width of what is placed. -/
theorem stop_eq (placed : Placed cursor trees rest) :
    rest.stop = cursor.stop + Tree.widthOf trees := by
  induction placed with
  | nothing cursor => simp [Tree.widthOf]
  | blanks cursor => simp
  | word next proper =>
      simp [Cursor.advanced_eq next, Cursor.start, Tree.widthOf, Tree.width, Nat.add_assoc]
  | node begun settled proper inside ended formed inductionHypothesis =>
      simpa [Tree.widthOf, Tree.width] using inductionHypothesis
  | missing cursor fault => simp [Tree.widthOf, Tree.width]
  | rejected fault next =>
      simp [Cursor.advanced_eq next, Cursor.start, Tree.widthOf, Tree.width, Nat.add_assoc]
  | @cut cursor tokens last start all =>
      simp [Cursor.start, Tree.widthOf, Tree.width, Nat.add_assoc]
  | append before after inductionBefore inductionAfter =>
      rw [inductionAfter, inductionBefore, Tree.widthOf_append, Nat.add_assoc]

theorem length_words_le (placed : Placed cursor trees rest) :
    rest.words.length ≤ cursor.words.length := by
  have counted := congrArg (List.countP (! ·.isTrivia)) placed.tokens
  rw [List.countP_append, Cursor.countP_remaining, Cursor.countP_remaining] at counted
  omega

/-- What moves past a word places something. -/
theorem trees_ne_nil (placed : Placed cursor trees rest)
    (progress : rest.words.length < cursor.words.length) : trees ≠ [] := by
  rintro rfl
  have counted := congrArg (List.countP (! ·.isTrivia)) placed.tokens
  rw [Tree.tokensOf, List.nil_append, Cursor.countP_remaining, Cursor.countP_remaining] at counted
  omega

/-- What moves past a word begins with it, if no blanks come first. -/
theorem head_tokens {word : Word} {more : List Word} (placed : Placed cursor trees rest)
    (settled : cursor.blanks = .empty) (next : cursor.words = word :: more)
    (progress : rest.words.length < cursor.words.length) :
    (Tree.tokensOf trees).head? = some word.token := by
  have tokens := placed.tokens
  have ahead : cursor.remaining = word.token :: cursor.advanced.remaining := by
    rw [← Cursor.remaining_advanced next, settled]
    rfl
  cases spelled : Tree.tokensOf trees with
  | nil =>
      have counted := congrArg (List.countP (! ·.isTrivia)) tokens
      rw [spelled, List.nil_append, Cursor.countP_remaining, Cursor.countP_remaining] at counted
      omega
  | cons first others =>
      rw [spelled, ahead, List.cons_append, List.cons.injEq] at tokens
      rw [List.head?_cons, tokens.1]

/-- A parse that was cut off stays so. -/
theorem not_tooDeep (placed : Placed cursor trees rest) (shallow : rest.tooDeep = false) :
    cursor.tooDeep = false := by
  induction placed with
  | nothing | blanks | missing => exact shallow
  | word | rejected => simpa using shallow
  | node begun settled proper inside ended formed inductionHypothesis => exact inductionHypothesis shallow
  | cut => contradiction
  | append before after inductionBefore inductionAfter =>
      exact inductionBefore (inductionAfter shallow)

/-- A parse is cut off only where an error node says so, and then no word is left. -/
theorem hasError_of_tooDeep (placed : Placed cursor trees rest)
    (shallow : cursor.tooDeep = false) (deep : rest.tooDeep = true) :
    Tree.hasErrorIn trees = true ∧ rest.words = [] := by
  induction placed with
  | nothing | blanks | missing => simp_all
  | word | rejected => simp_all
  | node begun settled proper inside ended formed inductionHypothesis =>
      simpa [Tree.hasErrorIn, Tree.hasError] using
        (inductionHypothesis shallow deep).imp_left .inr
  | cut => simp [Tree.hasErrorIn, Tree.hasError]
  | @append cursor middle rest first second before after inductionBefore inductionAfter =>
      cases cutBefore : middle.tooDeep with
      | false => simp [inductionAfter cutBefore deep]
      | true =>
          have exhausted := inductionBefore shallow cutBefore
          have shorter := after.length_words_le
          rw [exhausted.2, List.length_nil, Nat.le_zero, List.length_eq_zero_iff] at shorter
          simp [exhausted.1, shorter]

/-- A parse that is cut off has no words left, now and later. -/
theorem exhausted (placed : Placed cursor trees rest)
    (ended : cursor.tooDeep = true → cursor.words = []) (deep : rest.tooDeep = true) :
    rest.words = [] := by
  cases before : cursor.tooDeep with
  | false => exact (placed.hasError_of_tooDeep before deep).2
  | true =>
      have shorter := placed.length_words_le
      rw [ended before] at shorter
      exact List.length_eq_zero_iff.mp (Nat.le_zero.mp shorter)

/-- What holds of error nodes and of each node as it is placed holds of every node. Since a node
starts at a word, the parse was not cut off before it. -/
theorem everywhere {holds : NodeKind → List Tree → Prop} (placed : Placed cursor trees rest)
    (ended : cursor.tooDeep = true → cursor.words = [])
    (errors : ∀ tokens, holds .error (Tree.leaves tokens))
    (nodes : ∀ {cursor rest kind children}, cursor.tooDeep = false → kind ≠ .error →
      Placed cursor children rest →
      (rest.tooDeep = false → Formed kind (Tree.withoutTrivia children)) → holds kind children) :
    Tree.EverywhereIn holds trees := by
  have error (tokens : List Token) :
      Tree.EverywhereIn holds [.node .error (Tree.leaves tokens)] :=
    ⟨⟨errors tokens, Tree.everywhereIn_leaves tokens⟩, trivial⟩
  induction placed with
  | nothing cursor => trivial
  | blanks cursor => exact Tree.everywhereIn_leaves _
  | word next proper =>
      exact (Tree.everywhereIn_append _ _).mpr ⟨Tree.everywhereIn_leaves _, trivial, trivial⟩
  | node begun settled proper inside _ formed inductionHypothesis =>
      have shallow := Bool.eq_false_iff.mpr (mt ended begun)
      exact ⟨⟨nodes shallow proper inside formed, inductionHypothesis ended⟩, trivial⟩
  | missing cursor fault => exact error []
  | @rejected cursor word more fault next =>
      exact (Tree.everywhereIn_append _ _).mpr ⟨Tree.everywhereIn_leaves _, error [word.token]⟩
  | @cut cursor tokens last start all =>
      exact (Tree.everywhereIn_append _ _).mpr ⟨Tree.everywhereIn_leaves _, error tokens⟩
  | append before after inductionBefore inductionAfter =>
      exact (Tree.everywhereIn_append _ _).mpr
        ⟨inductionBefore ended, inductionAfter (before.exhausted ended)⟩

/-- In a parse that was not cut off, error nodes hold at most one token, and all others are well
formed. -/
theorem everywhere_of_shallow {holds : NodeKind → List Tree → Prop}
    (placed : Placed cursor trees rest) (shallow : rest.tooDeep = false)
    (missing : holds .error []) (rejected : ∀ word : Word, holds .error [.leaf word.token])
    (nodes : ∀ {cursor rest kind children}, cursor.words ≠ [] → cursor.blanks = .empty →
      Placed cursor children rest → Formed kind (Tree.withoutTrivia children) →
      holds kind children) :
    Tree.EverywhereIn holds trees := by
  induction placed with
  | nothing cursor => trivial
  | blanks cursor => exact Tree.everywhereIn_leaves _
  | word next proper =>
      exact (Tree.everywhereIn_append _ _).mpr ⟨Tree.everywhereIn_leaves _, trivial, trivial⟩
  | node begun settled proper inside ended formed inductionHypothesis =>
      exact ⟨⟨nodes begun settled inside (formed shallow), inductionHypothesis shallow⟩, trivial⟩
  | missing cursor fault => exact ⟨⟨missing, trivial⟩, trivial⟩
  | @rejected cursor word more fault next =>
      refine (Tree.everywhereIn_append _ _).mpr ⟨Tree.everywhereIn_leaves _, ?_⟩
      exact ⟨⟨rejected word, trivial, trivial⟩, trivial⟩
  | cut => contradiction
  | append before after inductionBefore inductionAfter =>
      exact (Tree.everywhereIn_append _ _).mpr
        ⟨inductionBefore (after.not_tooDeep shallow), inductionAfter shallow⟩

end Placed

end Scrapscript
