import Scrapscript.Token.Lexer
import Scrapscript.Proofs.Tree.Row

/-!
The tokens of a text spell the text.
-/

namespace Scrapscript.Lexer

theorem identifierRest_starts (text : Text) : identifierRest text <+: text := by
  fun_induction identifierRest text with
  | case1 => exact List.prefix_refl []
  | case2 last word => exact List.prefix_refl [last]
  | case3 last word => exact List.nil_prefix
  | case4 next following rest word inductionHypothesis =>
      exact (List.prefix_cons_inj next).mpr inductionHypothesis
  | case5 next following rest word joins inductionHypothesis =>
      rw [List.prefix_cons_inj, List.prefix_cons_inj]
      exact inductionHypothesis
  | case6 next following rest word ends => exact List.nil_prefix

theorem fraction_starts (text : Text) : fraction text <+: text := by
  unfold fraction
  split
  · rename_i point first rest
    split
    · exact (List.prefix_cons_inj point).mpr
        ((List.prefix_cons_inj first).mpr ( List.takeWhile_prefix _))
    · exact List.nil_prefix
  · exact List.nil_prefix

theorem stringBody_starts (text : Text) : (stringBody text).2 <+: text := by
  fun_induction stringBody text with
  | case1 => exact List.nil_prefix
  | case2 char rest quote => exact (List.prefix_cons_inj char).mpr List.nil_prefix
  | case3 => exact List.nil_prefix
  | case4 => exact List.nil_prefix
  | case5 char quote backslash escaped more plain closed body ended inductionHypothesis =>
      rw [ended] at inductionHypothesis
      exact (List.prefix_cons_inj char).mpr ((List.prefix_cons_inj escaped).mpr inductionHypothesis)
  | case6 char rest quote backslash closed body ended inductionHypothesis =>
      rw [ended] at inductionHypothesis
      exact (List.prefix_cons_inj char).mpr inductionHypothesis

/-- Whether a token is spelled by a character and a beginning of the text after it. -/
def Spells (first : Char) (rest : Text) (token : Token) : Prop :=
  ∃ more, token.text = first :: more ∧ more <+: rest

theorem spells_one (kind : TokenKind) (first : Char) (rest : Text) :
    Spells first rest ⟨kind, [first]⟩ :=
  ⟨[], rfl, List.nil_prefix⟩

theorem identifier_spells (first : Char) (rest : Text) :
    Spells first rest (identifier first rest) :=
  ⟨_, rfl, identifierRest_starts rest⟩

theorem number_spells (first : Char) (rest : Text) : Spells first rest (number first rest) := by
  have fractions := fraction_starts (rest.dropWhile isDigit)
  unfold number
  split
  · exact ⟨_, rfl, List.takeWhile_prefix _⟩
  · obtain ⟨after, ends⟩ := fractions
    refine ⟨_, List.cons_append, after, ?_⟩
    rw [List.append_assoc, ends, List.takeWhile_append_dropWhile]

theorem tilde_spells (rest : Text) : Spells '~' rest (tilde rest) := by
  unfold tilde
  split
  · exact spells_one _ _ _
  · rename_i next body
    split
    · exact ⟨_, rfl, (List.prefix_cons_inj next).mpr ( List.takeWhile_prefix _)⟩
    · split
      · exact ⟨_, rfl, (List.prefix_cons_inj next).mpr (List.take_prefix 1 body)⟩
      · exact spells_one _ _ _

/-- A symbol is one character or two. -/
theorem symbol?_spells {first : Char} {rest : Text} {token : Token}
    (found : symbol? first rest = some token) : Spells first rest token := by
  have two {second : Char} {kind : TokenKind} {otherwise : Option Token}
      (taken : (if rest.head? = some second then some ⟨kind, [first, second]⟩ else otherwise)
        = some token)
      (others : otherwise = some token → Spells first rest token) : Spells first rest token := by
    by_cases follows : rest.head? = some second
    · rw [if_pos follows, Option.some.injEq] at taken
      subst taken
      refine ⟨[second], rfl, ?_⟩
      cases rest with
      | nil => simp at follows
      | cons next rest =>
          obtain rfl : next = second := by simpa using follows
          exact (List.prefix_cons_inj next).mpr List.nil_prefix
    · rw [if_neg follows] at taken
      exact others taken
  have one {kind : TokenKind} (taken : some (⟨kind, [first]⟩ : Token) = some token) :
      Spells first rest token := by
    rw [← Option.some.inj taken]
    exact spells_one kind first rest
  unfold symbol? at found
  split at found
  -- Each symbol is settled by the longest spelling that is tried for its first character.
  all_goals first
    | exact one found
    | exact two found one
    | exact two found fun found => two found one
    | exact two found fun found => two found fun found => two found one
    | exact two found fun found => nomatch found
    | exact nomatch found

theorem token_spells (first : Char) (rest : Text) : Spells first rest (token first rest) := by
  unfold token
  split
  · exact ⟨_, rfl, List.takeWhile_prefix _⟩
  split
  · exact ⟨_, rfl, List.takeWhile_prefix _⟩
  split
  · exact identifier_spells first rest
  split
  · split
    · exact identifier_spells first rest
    · exact spells_one _ _ _
  split
  · exact number_spells first rest
  split
  · exact ⟨_, rfl, stringBody_starts rest⟩
  split
  · rename_i tildes
    rw [eq_of_beq tildes]
    exact tilde_spells rest
  · cases found : symbol? first rest with
    | none => exact spells_one _ _ _
    | some token => exact symbol?_spells found

theorem textOf_tokensAfter (skipped : Nat) (text : Text) :
    Token.textOf (tokensAfter skipped text) = text.drop skipped := by
  induction text generalizing skipped with
  | nil => cases skipped <;> rfl
  | cons first rest inductionHypothesis =>
      cases skipped with
      | succ skipped => exact inductionHypothesis skipped
      | zero =>
          obtain ⟨more, spelled, begins⟩ := token_spells first rest
          have others := inductionHypothesis more.length
          simp only [tokensAfter, Token.textOf, List.flatMap_cons, spelled] at others ⊢
          simp only [List.length_cons, Nat.add_sub_cancel, others, List.cons_append,
            List.drop_zero, List.cons.injEq, true_and]
          obtain ⟨after, rfl⟩ := begins
          simp

/-- No character of a text is lost, repeated or moved. -/
theorem textOf_tokenize (text : Text) : Token.textOf (tokenize text) = text :=
  textOf_tokensAfter 0 text

end Scrapscript.Lexer
