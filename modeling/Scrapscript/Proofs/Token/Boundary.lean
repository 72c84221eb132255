import Scrapscript.Proofs.Token.Lexer

/-!
Cutting a text between its tokens. A token that fits into a beginning of a text is also the first
token of that beginning, so that a run of tokens cut out of a text is what the cut splits into.
-/

namespace Scrapscript.Lexer

theorem takeWhile_of_fits {accepts : Char → Bool} {rest more : Text}
    (fits : (rest ++ more).takeWhile accepts <+: rest) :
    (rest ++ more).takeWhile accepts = rest.takeWhile accepts := by
  induction rest with
  | nil => simpa using fits
  | cons char rest inductionHypothesis =>
      by_cases accepted : accepts char = true
      · simp only [List.cons_append, List.takeWhile_cons, accepted, if_true,
          List.prefix_cons_inj] at fits ⊢
        rw [inductionHypothesis fits]
      · simp [accepted]

theorem identifierRest_of_fits {rest more : Text} (fits : identifierRest (rest ++ more) <+: rest) :
    identifierRest (rest ++ more) = identifierRest rest := by
  fun_induction identifierRest rest with
  | case1 => simpa using fits
  | case2 last word =>
      cases more with
      | nil => simp [identifierRest, word]
      | cons following more =>
          simp only [List.singleton_append, identifierRest, word, if_true, List.prefix_cons_inj,
            List.prefix_nil] at fits ⊢
          rw [fits]
  | case3 last word =>
      cases more with
      | nil => simp [identifierRest, word]
      | cons following more =>
          simp only [List.singleton_append, identifierRest, word] at fits ⊢
          split at fits
          · contradiction
          · split at fits
            · simp [List.prefix_cons_iff] at fits
            · rename_i alone
              simp [alone]
  | case4 next following rest word inductionHypothesis =>
      simp only [List.cons_append, identifierRest, word, if_true, List.prefix_cons_inj] at fits ⊢
      rw [← inductionHypothesis fits]
      rfl
  | case5 next following rest word joins inductionHypothesis =>
      simp only [List.cons_append, identifierRest, word, joins, if_true] at fits ⊢
      simp only [Bool.false_eq_true, if_false, List.prefix_cons_inj] at fits ⊢
      rw [inductionHypothesis fits]
  | case6 next following rest word ends =>
      simp [identifierRest, word, ends]

theorem fraction_of_fits {rest more : Text} (fits : fraction (rest ++ more) <+: rest) :
    fraction (rest ++ more) = fraction rest := by
  match rest with
  | [] => simpa [fraction] using fits
  | [point] =>
      cases more with
      | nil => rfl
      | cons first more =>
          simp only [List.singleton_append, fraction] at fits ⊢
          split at fits
          · simp [List.prefix_cons_iff] at fits
          · rename_i alone
            simp [alone]
  | point :: first :: rest =>
      simp only [List.cons_append, fraction] at fits ⊢
      split at fits
      · rename_i begins
        rw [List.prefix_cons_inj, List.prefix_cons_inj] at fits
        simp [begins, takeWhile_of_fits fits]
      · rename_i alone
        simp [alone]

theorem stringBody_quote {char : Char} (quote : (char == '"') = true) (rest : Text) :
    stringBody (char :: rest) = (true, [char]) := by
  cases rest <;> simp [stringBody, quote]

theorem stringBody_plain {char : Char} (quote : ¬ (char == '"') = true)
    (backslash : ¬ (char == '\\') = true) (rest : Text) :
    stringBody (char :: rest) = ((stringBody rest).1, char :: (stringBody rest).2) := by
  cases rest <;> simp [stringBody, quote, backslash]

/-- A body that spans nothing is not closed. -/
theorem stringBody_of_empty {text : Text} (empty : (stringBody text).2 = []) :
    stringBody text = (false, []) := by
  unfold stringBody at empty ⊢
  grind

theorem stringBody_of_fits {rest more : Text} (fits : (stringBody (rest ++ more)).2 <+: rest) :
    stringBody (rest ++ more) = stringBody rest := by
  fun_induction stringBody rest with
  | case1 =>
      rw [List.nil_append, List.prefix_nil] at fits
      exact stringBody_of_empty fits
  | case2 char rest quote => exact stringBody_quote quote (rest ++ more)
  | case3 char quote backslash =>
      cases more with
      | nil => simp [stringBody, quote, backslash]
      | cons escaped more =>
          simp only [List.singleton_append, stringBody, quote, backslash, if_true] at fits ⊢
          by_cases broken : (escaped == '\n') = true
          · simp [broken]
          · simp [broken, List.prefix_cons_iff] at fits
  | case4 char quote backslash escaped more broken =>
      simp [stringBody, quote, backslash, broken]
  | case5 char quote backslash escaped rest plain closed body ended inductionHypothesis =>
      simp only [List.cons_append, stringBody, quote, backslash, plain, if_true] at fits ⊢
      simp only [Bool.false_eq_true, if_false, List.prefix_cons_inj] at fits ⊢
      rw [inductionHypothesis fits, ended]
  | case6 char rest quote backslash closed body ended inductionHypothesis =>
      rw [List.cons_append, stringBody_plain quote backslash] at fits ⊢
      rw [List.prefix_cons_inj] at fits
      rw [inductionHypothesis fits, ended]

theorem tilde_of_fits {rest more : Text} (fits : (tilde (rest ++ more)).text <+: '~' :: rest) :
    tilde (rest ++ more) = tilde rest := by
  match rest with
  | [] =>
      cases more with
      | nil => rfl
      | cons next body =>
          simp only [List.nil_append, tilde] at fits ⊢
          grind
  | [next] =>
      simp only [List.singleton_append, tilde] at fits ⊢
      split
      · rename_i second
        simp only [second, if_true, List.prefix_cons_inj, List.prefix_nil] at fits
        simp [fits]
      · cases more with
        | nil => rfl
        | cons digit more =>
            -- A second hexadecimal digit would not fit.
            split
            · rename_i single digits
              rw [if_neg single, if_pos digits] at fits
              simp at fits
            · simp
  | next :: second :: rest =>
      simp only [List.cons_append, tilde] at fits ⊢
      split
      · rename_i doubled
        simp only [doubled, if_true, List.prefix_cons_inj] at fits
        rw [← List.cons_append, takeWhile_of_fits fits]
      · rfl

theorem symbol?_congr {first : Char} {rest other : Text} (same : rest.head? = other.head?) :
    symbol? first rest = symbol? first other := by
  unfold symbol?
  rw [same]

/-- A symbol of one character does not depend on what comes after it. -/
theorem symbol?_of_single {first : Char} {rest : Text}
    (single : ((symbol? first rest).getD ⟨.error, [first]⟩).text = [first]) :
    symbol? first rest = symbol? first [] := by
  have two {second : Char} {kind : TokenKind} {otherwise expected : Option Token}
      (single : ((if rest.head? = some second then some ⟨kind, [first, second]⟩
        else otherwise).getD ⟨.error, [first]⟩).text = [first])
      (others : (otherwise.getD ⟨.error, [first]⟩).text = [first] → otherwise = expected) :
      (if rest.head? = some second then some ⟨kind, [first, second]⟩ else otherwise)
        = expected := by
    by_cases follows : rest.head? = some second
    · simp [follows] at single
    · rw [if_neg follows] at single ⊢
      exact others single
  unfold symbol? at single ⊢
  split at single
  all_goals first
    | rfl
    | exact two single fun _ => rfl
    | exact two single fun single => two single fun _ => rfl
    | exact two single fun single => two single fun single => two single fun _ => rfl

theorem number_text (first : Char) (rest : Text) :
    (number first rest).text =
      first :: (rest.takeWhile isDigit ++ fraction (rest.dropWhile isDigit)) := by
  unfold number
  split
  · rename_i whole
    simp [whole]
  · simp

theorem number_of_fits {first : Char} {rest more : Text}
    (fits : (number first (rest ++ more)).text <+: first :: rest) :
    number first (rest ++ more) = number first rest := by
  rw [number_text, List.prefix_cons_inj] at fits
  have digits : (rest ++ more).takeWhile isDigit = rest.takeWhile isDigit :=
    takeWhile_of_fits ((List.prefix_append _ _).trans fits)
  have others : (rest ++ more).dropWhile isDigit = rest.dropWhile isDigit ++ more := by
    apply (List.append_right_inj (rest.takeWhile isDigit)).mp
    rw [← digits, List.takeWhile_append_dropWhile, digits, ← List.append_assoc,
      List.takeWhile_append_dropWhile]
  rw [digits, others] at fits
  have fractions : fraction (rest.dropWhile isDigit ++ more) = fraction (rest.dropWhile isDigit) := by
    apply fraction_of_fits
    rw [← List.prefix_append_right_inj (rest.takeWhile isDigit), List.takeWhile_append_dropWhile]
    exact fits
  unfold number
  rw [digits, others, fractions]

/-- How the tokens that begin with a character are read. -/
inductive Reading (first : Char) : Prop
  | space (blank : isSpace first = true)
      (reads : ∀ rest, token first rest = ⟨.whitespace, first :: rest.takeWhile isSpace⟩)
  | dash (begins : first = '-') (reads : ∀ rest, token first rest =
      if rest.head?.any (· == '-') then ⟨.comment, first :: rest.takeWhile (· != '\n')⟩
      else (symbol? first rest).getD ⟨.error, [first]⟩)
  | letter (reads : ∀ rest, token first rest = identifier first rest)
  | underscore (reads : ∀ rest, token first rest =
      if rest.head?.any isWord then identifier first rest else ⟨.underscore, [first]⟩)
  | digit (reads : ∀ rest, token first rest = number first rest)
  | quote (reads : ∀ rest, token first rest =
      ⟨if (stringBody rest).1 then .string else .error, first :: (stringBody rest).2⟩)
  | tilde (begins : first = '~') (reads : ∀ rest, token first rest = tilde rest)
  | symbol (reads : ∀ rest, token first rest = (symbol? first rest).getD ⟨.error, [first]⟩)

theorem reading (first : Char) : Reading first := by
  by_cases space : isSpace first = true
  · exact .space space fun rest => by simp [token, space]
  by_cases dash : first = '-'
  · exact .dash dash fun rest => by
      cases rest <;> simp [token, dash, isSpace, isLetter, isDigit]
  by_cases letter : isLetter first = true
  · exact .letter fun rest => by simp [token, space, dash, letter]
  by_cases underscore : first = '_'
  · exact .underscore fun rest => by simp [token, underscore, isSpace, isLetter]
  by_cases digit : isDigit first = true
  · exact .digit fun rest => by simp [token, space, dash, letter, underscore, digit]
  by_cases quote : first = '"'
  · exact .quote fun rest => by simp [token, quote, isSpace, isLetter, isDigit]
  by_cases tilde : first = '~'
  · exact .tilde tilde fun rest => by simp [token, tilde, isSpace, isLetter, isDigit]
  · exact .symbol fun rest => by
      simp [token, space, dash, letter, underscore, digit, quote, tilde]

/-- A symbol that fits into a beginning of a text. -/
theorem symbol_of_fits {first : Char} {rest more : Text}
    (fits : ((symbol? first (rest ++ more)).getD ⟨.error, [first]⟩).text <+: first :: rest) :
    symbol? first (rest ++ more) = symbol? first rest := by
  cases rest with
  | cons char rest => exact symbol?_congr rfl
  | nil =>
      apply symbol?_of_single
      have spelled : Spells first more ((symbol? first more).getD ⟨.error, [first]⟩) := by
        cases found : symbol? first more with
        | none => exact spells_one _ _ _
        | some token => exact symbol?_spells found
      obtain ⟨after, text, -⟩ := spelled
      rw [List.nil_append, text, List.prefix_cons_inj, List.prefix_nil] at fits
      rw [List.nil_append, text, fits]

/-- A token that is longer if the next character is accepted. -/
theorem choice_of_fits {first : Char} {rest more : Text} (accepts : Char → Bool)
    (longer shorter : Text → Token)
    (takes : ∀ char more, accepts char = true → ¬ (longer (char :: more)).text <+: [first])
    (longers : (longer (rest ++ more)).text <+: first :: rest → longer (rest ++ more) = longer rest)
    (shorters : (shorter (rest ++ more)).text <+: first :: rest →
      shorter (rest ++ more) = shorter rest)
    (fits : (if (rest ++ more).head?.any accepts then longer (rest ++ more)
      else shorter (rest ++ more)).text <+: first :: rest) :
    (if (rest ++ more).head?.any accepts then longer (rest ++ more) else shorter (rest ++ more)) =
      if rest.head?.any accepts then longer rest else shorter rest := by
  split at fits
  · rename_i accepted
    cases rest with
    | nil =>
        obtain ⟨char, found, accepts⟩ := (Option.any_eq_true _ _).mp accepted
        obtain ⟨others, rfl⟩ : ∃ others, more = char :: others := List.head?_eq_some_iff.mp found
        exact absurd fits (takes char others accepts)
    | cons char rest => rw [if_pos accepted, longers fits, if_pos (by exact accepted)]
  · rename_i refused
    have also : ¬ rest.head?.any accepts = true := by
      cases rest with
      | nil => simp
      | cons char rest => exact refused
    rw [if_neg refused, shorters fits, if_neg also]

/-- A token that fits into a beginning of a text is the first token of that beginning too. -/
theorem token_of_fits {first : Char} {rest more : Text}
    (fits : (token first (rest ++ more)).text <+: first :: rest) :
    token first (rest ++ more) = token first rest := by
  have identifiers (fits : (identifier first (rest ++ more)).text <+: first :: rest) :
      identifier first (rest ++ more) = identifier first rest := by
    rw [identifier, List.prefix_cons_inj] at fits
    rw [identifier, identifier, identifierRest_of_fits fits]
  cases reading first with
  | space blank reads =>
      rw [reads, List.prefix_cons_inj] at fits
      rw [reads, reads, takeWhile_of_fits fits]
  | dash begins reads =>
      rw [reads] at fits
      rw [reads, reads]
      refine choice_of_fits (· == '-') (fun rest => ⟨.comment, first :: rest.takeWhile (· != '\n')⟩)
        (fun rest => (symbol? first rest).getD ⟨.error, [first]⟩) ?_ ?_ ?_ fits
      · intro char more dash
        rw [eq_of_beq dash]
        simp [List.prefix_cons_iff]
      · intro fits
        rw [List.prefix_cons_inj] at fits
        rw [takeWhile_of_fits fits]
      · intro fits
        rw [symbol_of_fits fits]
  | letter reads =>
      rw [reads] at fits
      rw [reads, reads, identifiers fits]
  | underscore reads =>
      rw [reads] at fits
      rw [reads, reads]
      refine choice_of_fits isWord (identifier first) (fun _ => ⟨.underscore, [first]⟩) ?_
        identifiers (fun _ => rfl) fits
      intro char more word
      cases more <;> simp [identifier, identifierRest, word, List.prefix_cons_iff]
  | digit reads =>
      rw [reads] at fits
      rw [reads, reads, number_of_fits fits]
  | quote reads =>
      rw [reads, List.prefix_cons_inj] at fits
      rw [reads, reads, stringBody_of_fits fits]
  | tilde begins reads =>
      subst begins
      rw [reads] at fits
      rw [reads, reads, tilde_of_fits fits]
  | symbol reads =>
      rw [reads] at fits
      rw [reads, reads, symbol_of_fits fits]

theorem tokensAfter_eq (skipped : Nat) (text : Text) :
    tokensAfter skipped text = tokenize (text.drop skipped) := by
  induction text generalizing skipped with
  | nil => cases skipped <;> rfl
  | cons first rest inductionHypothesis =>
      cases skipped with
      | zero => rfl
      | succ skipped => exact inductionHypothesis skipped

/-- The first token and those of the text after it. -/
theorem tokenize_cons {first : Char} {rest more : Text} {next : Token} {body : Text}
    (read : token first rest = next) (spelled : next.text = first :: body)
    (split : rest = body ++ more) : tokenize (first :: rest) = next :: tokenize more := by
  have others : tokensAfter (next.text.length - 1) rest = tokenize more := by
    simp [tokensAfter_eq, spelled, split]
  rw [tokenize, tokensAfter, read, others]

/-- A text that has tokens begins with the first of them. -/
theorem tokenize_eq_cons {text : Text} {next : Token} {others : List Token}
    (read : tokenize text = next :: others) :
    ∃ first body more, text = first :: (body ++ more) ∧ next.text = first :: body ∧
      token first (body ++ more) = next ∧ tokenize more = others := by
  cases text with
  | nil => simp [tokenize, tokensAfter] at read
  | cons first rest =>
      obtain ⟨body, spelled, more, rfl⟩ := token_spells first rest
      rw [tokenize_cons rfl spelled rfl, List.cons.injEq] at read
      exact ⟨first, body, more, rfl, read.1 ▸ spelled, read.1, read.2⟩

theorem tokenize_textOf_suffix {text : Text} {first second : List Token}
    (read : tokenize text = first ++ second) : tokenize (Token.textOf second) = second := by
  induction first generalizing text with
  | nil =>
      rw [List.nil_append] at read
      rw [← read, textOf_tokenize]
  | cons token first inductionHypothesis =>
      obtain ⟨_, _, more, -, -, -, others⟩ := tokenize_eq_cons read
      exact inductionHypothesis others

theorem tokenize_textOf_start {text : Text} {first second : List Token}
    (read : tokenize text = first ++ second) : tokenize (Token.textOf first) = first := by
  induction first generalizing text with
  | nil => rfl
  | cons next first inductionHypothesis =>
      rw [List.cons_append] at read
      obtain ⟨char, body, more, rfl, spelled, token, others⟩ := tokenize_eq_cons read
      have rest : more = Token.textOf first ++ Token.textOf second := by
        rw [← Token.textOf_append, ← others, textOf_tokenize]
      have text : Token.textOf (next :: first) = char :: (body ++ Token.textOf first) := by
        simp [Token.textOf, spelled]
      rw [rest, ← List.append_assoc] at token
      have fits : next.text <+: char :: (body ++ Token.textOf first) := by
        rw [spelled, List.prefix_cons_inj]
        exact List.prefix_append _ _
      have kept := token_of_fits (token ▸ fits)
      rw [text, tokenize_cons (kept.symm.trans token) spelled rfl, inductionHypothesis others]

/-- A run of tokens cut out of a text is what the cut splits into. -/
theorem tokenize_textOf_middle {text : Text} {before middle after : List Token}
    (read : tokenize text = before ++ middle ++ after) :
    tokenize (Token.textOf middle) = middle := by
  rw [List.append_assoc] at read
  exact tokenize_textOf_start (tokenize_textOf_suffix read)

end Scrapscript.Lexer
