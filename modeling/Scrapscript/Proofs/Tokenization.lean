import Scrapscript.Proofs.Text.Slice
import Scrapscript.Proofs.Token.Language
import Scrapscript.Proofs.Tree.Place

/-!
Every token of a text is the longest text of any kind where it starts, and an error stands exactly
where no kind has a text. Tokens keep their kinds when they are cut out of their text, and when the
layout between them is replaced by single spaces.
-/

namespace Scrapscript.Lexer

open TokenKind

variable {first : Char} {rest text word : Text} {kind : TokenKind}

/-- Whether a text of a kind, which is not empty, stands at the start of a text. -/
structure Matches (text : Text) (kind : TokenKind) (word : Text) : Prop where
  nonempty : word ≠ []
  begins : word <+: text
  member : word ∈ kind.language

/-- Whether a token is what a text has to begin with: the longest match of any kind, of which it is
the only kind, or an error if there is no match. -/
structure BestMatch (text : Text) (token : Token) : Prop where
  nonempty : token.text ≠ []
  begins : token.text <+: text
  belongs : token.kind ≠ .error → token.text ∈ token.kind.language
  only : ∀ kind, token.text ∈ kind.language → kind = token.kind
  longest : ∀ kind word, Matches text kind word → word.length ≤ token.text.length
  error : token.kind = .error ↔ ∀ kind word, ¬ Matches text kind word

theorem not_mem_language_error : word ∉ language .error := by
  intro (listed : (TokenKind.error, word) ∈ symbols)
  simp [symbols] at listed

/-- A text of a kind at the start is its first character and a beginning of the rest. -/
theorem Matches.split (found : Matches (first :: rest) kind word) :
    ∃ body more, word = first :: body ∧ rest = body ++ more ∧
      token first body = ⟨kind, first :: body⟩ := by
  obtain ⟨nonempty, begins, member⟩ := found
  cases word with
  | nil => contradiction
  | cons char body =>
      obtain ⟨rfl, more, rfl⟩ := List.cons_prefix_cons.mp begins
      exact ⟨body, more, rfl, rfl, token_of_mem member⟩

/-- A shorter token would be the first token of the longer text as well, which is one token. -/
theorem Matches.length_le (found : Matches (first :: rest) kind word) :
    word.length ≤ (token first rest).text.length := by
  obtain ⟨body, more, rfl, rfl, read⟩ := found.split
  by_contra shorter
  obtain ⟨spelled, text, begins⟩ := token_spells first (body ++ more)
  have fits : (token first (body ++ more)).text <+: first :: body := by
    refine List.prefix_of_prefix_length_le ?_ found.begins (by omega)
    rw [text, List.prefix_cons_inj]
    exact begins
  rw [token_of_fits fits, read] at shorter
  exact shorter (le_refl _)

theorem number_kind_ne_error (first : Char) (rest : Text) : (number first rest).kind ≠ .error := by
  unfold number
  split <;> simp

theorem tilde_error (failed : (tilde rest).kind = .error) : (tilde rest).text = ['~'] := by
  unfold tilde at failed ⊢
  grind

/-- An error is a single character, unless it is a string without its closing quote. -/
theorem token_error (failed : (token first rest).kind = .error) :
    (token first rest).text = [first] ∨ first = '"' ∧ (stringBody rest).1 = false := by
  revert failed
  unfold token
  split
  · exact fun failed => nomatch failed
  split
  · exact fun failed => nomatch failed
  split
  · exact fun failed => nomatch failed
  split
  · split <;> exact fun failed => nomatch failed
  split
  · exact fun failed => absurd failed (number_kind_ne_error first rest)
  split
  · rename_i quote
    intro failed
    refine .inr ⟨eq_of_beq quote, Bool.eq_false_iff.mpr fun closed => ?_⟩
    simp [closed] at failed
  split
  · rename_i begins
    rw [eq_of_beq begins]
    exact fun failed => .inl (tilde_error failed)
  · intro failed
    cases found : symbol? first rest with
    | none => exact .inl rfl
    | some token =>
        have member := mem_language_of_mem_symbols (symbol?_mem found)
        rw [found] at failed
        rw [show token.kind = .error from failed] at member
        exact absurd member not_mem_language_error

theorem Matches.kind_ne_error (found : Matches (first :: rest) kind word) :
    (token first rest).kind ≠ .error := by
  intro failed
  have proper : kind ≠ .error := by
    rintro rfl
    exact not_mem_language_error found.member
  obtain ⟨body, more, rfl, rfl, read⟩ := found.split
  obtain single | ⟨rfl, unclosed⟩ := token_error failed
  · have fits : (token first (body ++ more)).text <+: first :: body := by
      rw [single, List.prefix_cons_inj]
      exact List.nil_prefix
    rw [token_of_fits fits, read] at failed
    exact proper failed
  · -- A quote that closes the matched text closes the whole one at the same place.
    have closed : (stringBody body).1 = true := by
      cases ended : (stringBody body).1 with
      | true => rfl
      | false =>
          rw [token_quote, ended] at read
          exact absurd (congrArg Token.kind read).symm proper
    rw [stringBody_separated closed, closed] at unclosed
    contradiction

theorem bestMatch_token (first : Char) (rest : Text) :
    BestMatch (first :: rest) (token first rest) := by
  obtain ⟨body, spelled, start⟩ := token_spells first rest
  have nonempty : (token first rest).text ≠ [] := by simp [spelled]
  have begins : (token first rest).text <+: first :: rest := by
    rw [spelled, List.prefix_cons_inj]
    exact start
  have matched {kind : TokenKind} (member : (token first rest).text ∈ kind.language) :
      Matches (first :: rest) kind (token first rest).text := ⟨nonempty, begins, member⟩
  refine ⟨nonempty, begins, token_belongs first rest, ?_, fun _ _ => Matches.length_le, ?_⟩
  · intro kind member
    obtain ⟨body, more, text, rfl, read⟩ := (matched member).split
    have fits : (token first (body ++ more)).text <+: first :: body := by rw [text]
    rw [token_of_fits fits, read]
  · constructor
    · intro failed kind word found
      exact found.kind_ne_error failed
    · intro none
      by_contra proper
      exact none _ _ (matched (token_belongs first rest proper))

theorem bestMatch_of_tokenize {next : Token} {others : List Token}
    (read : tokenize text = next :: others) : BestMatch text next := by
  obtain ⟨first, body, more, rfl, -, rfl, -⟩ := tokenize_eq_cons read
  exact bestMatch_token first (body ++ more)

theorem width_pos {token : Token} (listed : token ∈ tokenize text) :
    0 < token.width := by
  obtain ⟨before, after, read⟩ := List.append_of_mem listed
  have nonempty := (bestMatch_of_tokenize (tokenize_textOf_suffix read)).nonempty
  obtain ⟨char, rest, spelled⟩ := List.exists_cons_of_ne_nil nonempty
  rw [Token.width, spelled]
  exact Nat.add_pos_left char.utf8Size_pos _

theorem getElem?_located {before after : List Token} {next : Token}
    (read : tokenize text = before ++ next :: after) :
    (Token.located 0 (tokenize text))[before.length]? =
      some (next, (Token.textOf before).bytes) := by
  have length : (Token.located 0 before).length = before.length := by
    simpa using congrArg List.length (Token.map_fst_located 0 before)
  rw [read, Token.located_append, List.getElem?_append_right (by omega), length,
    Token.bytes_textOf]
  simp [Token.located]

theorem tokenize_text {before after : List Token} {next : Token}
    (read : tokenize text = before ++ next :: after) : tokenize next.text = [next] := by
  have cut : tokenize text = before ++ [next] ++ after := by simpa using read
  simpa [Token.textOf] using tokenize_textOf_middle cut

/-- The significant tokens of a text are read again from their texts with single spaces between
them. -/
theorem tokenize_spaced (proper : ∀ token ∈ tokenize text, token.kind ≠ .error) :
    (tokenize ([' '].intercalate
        (((tokenize text).filter (! ·.isTrivia)).map Token.text))).filter (! ·.isTrivia) =
      (tokenize text).filter (! ·.isTrivia) := by
  have significant : ∀ token ∈ (tokenize text).filter (! ·.isTrivia), token.isTrivia = false := by
    intro token listed
    simpa using (List.mem_filter.mp listed).2
  rw [tokenize_intercalate significant, filter_intersperse significant]
  · intro token listed
    exact proper token (List.mem_of_mem_filter listed)
  · intro token listed
    obtain ⟨before, after, read⟩ := List.append_of_mem (List.mem_of_mem_filter listed)
    exact tokenize_text read

/-- The tokens of a text are its best matches, one after the other. -/
theorem tokenize_bestMatches (text : Text) :
    Token.textOf (tokenize text) = text ∧
    (∀ before next after, tokenize text = before ++ next :: after →
      BestMatch (Token.textOf (next :: after)) next ∧
      (Token.located 0 (tokenize text))[before.length]? =
        some (next, (Token.textOf before).bytes) ∧
      tokenize next.text = [next]) ∧
    ((∀ token ∈ tokenize text, token.kind ≠ .error) →
      (tokenize ([' '].intercalate
          (((tokenize text).filter (! ·.isTrivia)).map Token.text))).filter (! ·.isTrivia) =
        (tokenize text).filter (! ·.isTrivia)) := by
  refine ⟨textOf_tokenize text, ?_, tokenize_spaced⟩
  intro before next after read
  exact ⟨bestMatch_of_tokenize (tokenize_textOf_suffix read), getElem?_located read,
    tokenize_text read⟩

-- A hyphen joins a letter but not a digit, and a point begins a fraction only before a digit.
example : (tokenize "a-b-1..2.5".toList).map Token.kind =
    [.ident, .minus, .int, .dotDot, .float] := by decide

end Scrapscript.Lexer
