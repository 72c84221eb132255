import Scrapscript.Proofs.Grammar.Placed

/-!
Token runs as words: which words a run has, and which run some words are read from.
-/

namespace Scrapscript

theorem Blanks.eq_of_tokens {blanks other : Blanks} (same : blanks.tokens = other.tokens) :
    blanks = other := by
  cases blanks
  cases other
  congr

namespace Word

theorem group_word {token : Token} (significant : token.isTrivia = false) (rest : List Token) :
    group (token :: rest) = (.empty, ⟨token, significant, (group rest).1⟩ :: (group rest).2) := by
  simp [group, significant]

theorem group_blank {token : Token} (trivia : token.isTrivia = true) (rest : List Token) :
    group (token :: rest) = ((group rest).1.cons token trivia, (group rest).2) := by
  simp [group, trivia]

/-- Trivia before other tokens belongs to the blanks before the first word. -/
theorem group_trivia {trivia : List Token} (blank : ∀ token ∈ trivia, token.isTrivia = true)
    (tokens : List Token) :
    (group (trivia ++ tokens)).1.tokens = trivia ++ (group tokens).1.tokens ∧
      (group (trivia ++ tokens)).2 = (group tokens).2 := by
  induction trivia with
  | nil => exact ⟨rfl, rfl⟩
  | cons token trivia inductionHypothesis =>
      have first : token.isTrivia = true := blank token (.head _)
      obtain ⟨blanks, words⟩ := inductionHypothesis fun other later => blank other (.tail _ later)
      rw [List.cons_append, group_blank first]
      exact ⟨congrArg (token :: ·) blanks, words⟩

/-- The blanks before the first word do not depend on what comes after it. -/
theorem group_append_fst {tokens : List Token} (begun : (group tokens).2 ≠ []) (more : List Token) :
    (group (tokens ++ more)).1 = (group tokens).1 := by
  induction tokens with
  | nil => contradiction
  | cons token tokens inductionHypothesis =>
      cases trivia : token.isTrivia with
      | false => rw [List.cons_append, group_word trivia, group_word trivia]
      | true =>
          rw [group_blank trivia] at begun
          rw [List.cons_append, group_blank trivia, group_blank trivia, inductionHypothesis begun]

theorem isTrivia_of_group_eq_nil {tokens : List Token} (none : (group tokens).2 = []) :
    ∀ token ∈ tokens, token.isTrivia = true := by
  induction tokens with
  | nil => simp
  | cons token tokens inductionHypothesis =>
      cases trivia : token.isTrivia with
      | false => simp [group_word trivia] at none
      | true =>
          rw [group_blank trivia] at none
          simpa [trivia] using inductionHypothesis none

theorem group_append_trivia {last : List Token} (trivia : ∀ token ∈ last, token.isTrivia = true)
    {tokens : List Token} (none : (group tokens).2 = []) : (group (tokens ++ last)).2 = [] := by
  rw [(group_trivia (isTrivia_of_group_eq_nil none) last).2]
  have blank := (group_trivia trivia []).2
  rwa [List.append_nil] at blank

/-- Words that are written out are read again. -/
theorem group_flatMap (words : List Word) :
    group (words.flatMap fun word => word.token :: word.after.tokens) = (.empty, words) := by
  induction words with
  | nil => rfl
  | cons word words inductionHypothesis =>
      obtain ⟨blanks, same⟩ := group_trivia word.after.trivia
        (words.flatMap fun word => word.token :: word.after.tokens)
      rw [inductionHypothesis, Cursor.empty_tokens, List.append_nil] at blanks
      rw [inductionHypothesis] at same
      rw [List.flatMap_cons, List.cons_append, group_word word.significant, same,
        Blanks.eq_of_tokens blanks]

end Word

/-- The significant tokens that are left are those of the words. -/
theorem Cursor.filter_remaining (cursor : Cursor) :
    cursor.remaining.filter (! ·.isTrivia) = cursor.words.map Word.token := by
  have blank (blanks : Blanks) : blanks.tokens.filter (! ·.isTrivia) = [] := by
    rw [List.filter_eq_nil_iff]
    intro token membership
    simp [blanks.trivia token membership]
  rw [remaining, List.filter_append, blank, List.nil_append]
  induction cursor.words with
  | nil => rfl
  | cons word more inductionHypothesis =>
      simp [List.filter_append, blank, word.significant, inductionHypothesis]

end Scrapscript
