import Scrapscript.Proofs.Token.Boundary

/-!
Putting texts side by side. A token before white space stays what it is without it, so that the
tokens of two texts with white space between them are those of the texts.
-/

namespace Scrapscript.Lexer

section

variable {first space : Char} {rest more : Text}

theorem refused_of_isSpace (accepts : Char → Bool) (blank : isSpace space = true)
    (refused : [' ', '\t', '\r', '\n'].all (! accepts ·) = true) : accepts space = false := by
  have listed : space ∈ [' ', '\t', '\r', '\n'] := by simpa [isSpace, or_assoc] using blank
  simpa using List.all_eq_true.mp refused space listed

theorem takeWhile_separated {accepts : Char → Bool} (refused : accepts space = false) :
    (rest ++ space :: more).takeWhile accepts = rest.takeWhile accepts := by
  induction rest with
  | nil => simp [refused]
  | cons char rest inductionHypothesis =>
      simp only [List.cons_append, List.takeWhile_cons, inductionHypothesis]

theorem dropWhile_separated {accepts : Char → Bool} (refused : accepts space = false) :
    (rest ++ space :: more).dropWhile accepts = rest.dropWhile accepts ++ space :: more := by
  induction rest with
  | nil => simp [refused]
  | cons char rest inductionHypothesis =>
      by_cases accepted : accepts char = true <;> simp [accepted, inductionHypothesis]

theorem identifierRest_separated (blank : isSpace space = true) :
    identifierRest (rest ++ space :: more) = identifierRest rest := by
  have word : isWord space = false := refused_of_isSpace _ blank (by decide)
  have letter : isLetter space = false := refused_of_isSpace _ blank (by decide)
  have joint : (space == '/' || space == '-') = false :=
    refused_of_isSpace (fun char => char == '/' || char == '-') blank (by decide)
  have stop : identifierRest (space :: more) = [] := by
    cases more <;> simp [identifierRest, word, joint]
  fun_induction identifierRest rest with
  | case1 => exact stop
  | case2 last accepted => simp [identifierRest, accepted, stop]
  | case3 last refused => simp [identifierRest, refused, letter]
  | case4 next following rest accepted inductionHypothesis =>
      simpa [identifierRest, accepted] using inductionHypothesis
  | case5 next following rest refused joins inductionHypothesis =>
      simpa [identifierRest, refused, joins] using inductionHypothesis
  | case6 next following rest refused ends => simp [identifierRest, refused, ends]

theorem fraction_separated (blank : isSpace space = true) :
    fraction (rest ++ space :: more) = fraction rest := by
  have digit : isDigit space = false := refused_of_isSpace _ blank (by decide)
  have point : (space == '.') = false := refused_of_isSpace (· == '.') blank (by decide)
  match rest with
  | [] => cases more <;> simp [fraction, point]
  | [_] => simp [fraction, digit]
  | _ :: _ :: _ => simp [fraction, takeWhile_separated digit]

/-- A closed string ends at its quote. -/
theorem stringBody_separated (closed : (stringBody rest).1 = true) :
    stringBody (rest ++ more) = stringBody rest := by
  fun_induction stringBody rest with
  | case1 | case3 | case4 => contradiction
  | case2 char rest quote => exact stringBody_quote quote (rest ++ more)
  | case5 char quote backslash escaped rest plain closed body ended inductionHypothesis =>
      simp_all [stringBody]
  | case6 char rest quote backslash closed body ended inductionHypothesis =>
      rw [List.cons_append, stringBody_plain quote backslash]
      simp_all

theorem tilde_separated (blank : isSpace space = true) (proper : (tilde rest).kind ≠ .error) :
    tilde (rest ++ space :: more) = tilde rest := by
  have base64 : isBase64 space = false := refused_of_isSpace _ blank (by decide)
  match rest with
  | [] => simp [tilde] at proper
  | [next] =>
      by_cases doubled : (next == '~') = true
      · simp [tilde, doubled, base64]
      · simp [tilde, doubled] at proper
  | next :: second :: rest =>
      simp only [tilde, List.cons_append]
      rw [← List.cons_append, takeWhile_separated base64]
      rfl

theorem symbol?_separated (blank : isSpace space = true) :
    symbol? first (rest ++ space :: more) = symbol? first rest := by
  cases rest with
  | cons char rest => exact symbol?_congr rfl
  | nil =>
      have visible {second : Char} {kind : TokenKind} {otherwise : Option Token}
          (seen : isSpace second = false) :
          (if (space :: more).head? = some second then some ⟨kind, [first, second]⟩
            else otherwise) = otherwise := by
        refine if_neg fun same => ?_
        rw [Option.some.inj same, seen] at blank
        contradiction
      rw [List.nil_append]
      unfold symbol?
      split
      all_goals first
        | rfl
        | exact visible rfl
        | exact (visible rfl).trans (visible rfl)
        | exact (visible rfl).trans ((visible rfl).trans (visible rfl))

theorem number_separated (blank : isSpace space = true) :
    number first (rest ++ space :: more) = number first rest := by
  have digit : isDigit space = false := refused_of_isSpace _ blank (by decide)
  unfold number
  rw [takeWhile_separated digit, dropWhile_separated digit, fraction_separated blank]

theorem head?_separated (accepts : Char → Bool) (refused : accepts space = false) :
    (rest ++ space :: more).head?.any accepts = rest.head?.any accepts := by
  cases rest <;> simp [refused]

/-- A token before white space is the same without it, unless it is white space itself or
malformed. A comment ends only with its line. -/
theorem token_separated (blank : isSpace space = true) (visible : isSpace first = false)
    (proper : (token first rest).kind ≠ .error)
    (ended : (token first rest).kind = .comment → space = '\n') :
    token first (rest ++ space :: more) = token first rest := by
  cases reading first with
  | space begins reads => simp [begins] at visible
  | dash begins reads =>
      have dash : (space == '-') = false := refused_of_isSpace (· == '-') blank (by decide)
      rw [reads] at ended
      rw [reads, reads, head?_separated (· == '-') dash, symbol?_separated blank]
      split
      · rename_i commented
        rw [if_pos commented] at ended
        rw [takeWhile_separated (by simp [ended rfl])]
      · rfl
  | letter reads => rw [reads, reads, identifier, identifier, identifierRest_separated blank]
  | underscore reads =>
      have word : isWord space = false := refused_of_isSpace _ blank (by decide)
      rw [reads, reads, head?_separated isWord word, identifier, identifier,
        identifierRest_separated blank]
  | digit reads => rw [reads, reads, number_separated blank]
  | quote reads =>
      have closed : (stringBody rest).1 = true := by
        simpa [reads] using proper
      rw [reads, reads, stringBody_separated closed]
  | tilde begins reads =>
      rw [reads] at proper
      rw [reads, reads, tilde_separated blank proper]
  | symbol reads => rw [reads, reads, symbol?_separated blank]

/-- White space goes on until something else comes. -/
theorem tokenize_space (blank : isSpace space = true) :
    tokenize (space :: more) =
      ⟨.whitespace, space :: more.takeWhile isSpace⟩ :: tokenize (more.dropWhile isSpace) :=
  tokenize_cons (by simp [token, blank]) rfl List.takeWhile_append_dropWhile.symm

theorem tokenize_blanks (text : Text) :
    ∃ blanks, (∀ token ∈ blanks, token.isTrivia = true) ∧
      tokenize text = blanks ++ tokenize (text.dropWhile isSpace) := by
  cases text with
  | nil => exact ⟨[], by simp, rfl⟩
  | cons char rest =>
      by_cases blank : isSpace char = true
      · refine ⟨[⟨.whitespace, char :: rest.takeWhile isSpace⟩], ?_, ?_⟩
        · simp [Token.isTrivia, TokenKind.isTrivia]
        · simp [tokenize_space blank, blank]
      · exact ⟨[], by simp, by simp [blank]⟩

end

/-- Tokens that go on with others on a later line. White space at their end may have been drawn into
the line break. -/
def Continued (tokens later joined : List Token) : Prop :=
  ∃ kept last space, tokens = kept ++ last ∧ (∀ token ∈ last, token.isTrivia = true) ∧
    space.isTrivia = true ∧ space.breaksLine = true ∧ joined = kept ++ space :: later

theorem Continued.cons {tokens later joined : List Token} (continued : Continued tokens later joined)
    (next : Token) : Continued (next :: tokens) later (next :: joined) := by
  obtain ⟨kept, last, space, rfl, trivia, blank, breaks, rfl⟩ := continued
  exact ⟨next :: kept, last, space, rfl, trivia, blank, breaks, rfl⟩

/-- White space that a line break belongs to. -/
theorem Continued.space {space : Text} {last later : List Token}
    (trivia : ∀ token ∈ last, token.isTrivia = true) (breaks : '\n' ∈ space) :
    Continued last later (⟨.whitespace, space⟩ :: later) :=
  ⟨[], last, ⟨.whitespace, space⟩, rfl, trivia, rfl, by simpa [Token.breaksLine] using breaks, rfl⟩

/-- Two texts on lines of their own. -/
theorem tokenize_lines {upper : Text} (lower : Text)
    (proper : ∀ token ∈ tokenize upper, token.kind ≠ .error) :
    Continued (tokenize upper) (tokenize (lower.dropWhile isSpace))
      (tokenize (upper ++ '\n' :: lower)) := by
  generalize read : tokenize upper = tokens at proper
  induction tokens generalizing upper with
  | nil =>
      have empty : upper = [] := by rw [← textOf_tokenize upper, read]; rfl
      rw [empty, List.nil_append, tokenize_space rfl]
      exact .space (by simp) (.head _)
  | cons next others inductionHypothesis =>
      obtain ⟨first, body, more, rfl, spelled, token, read⟩ := tokenize_eq_cons read
      -- Unless the token is the white space at the end, it is left alone.
      have kept (same : Lexer.token first (body ++ more ++ '\n' :: lower) = next) :
          Continued (next :: others) (tokenize (lower.dropWhile isSpace))
            (tokenize (first :: (body ++ more) ++ '\n' :: lower)) := by
        rw [List.cons_append, tokenize_cons same spelled (List.append_assoc _ _ _)]
        exact (inductionHypothesis read fun token listed => proper token (.tail _ listed)).cons next
      cases blank : isSpace first with
      | false =>
          apply kept
          have properNext : (Lexer.token first (body ++ more)).kind ≠ .error := by
            rw [token]
            exact proper next (.head _)
          rw [token_separated rfl blank properNext fun _ => rfl, token]
      | true =>
          have run : next = ⟨.whitespace, first :: (body ++ more).takeWhile isSpace⟩ := by
            rw [← token, Lexer.token, if_pos blank]
          have ends : (body ++ more).takeWhile isSpace = body := by
            simpa [run] using spelled
          have spaces : ∀ char ∈ body, isSpace char = true := by
            rw [← ends]
            exact List.all_eq_true.mp List.all_takeWhile
          cases more with
          | nil =>
              have empty : others = [] := read.symm
              rw [empty, run, List.append_nil, List.cons_append, tokenize_space blank,
                List.takeWhile_append_of_pos spaces, List.dropWhile_append_of_pos spaces]
              exact .space (by simp [Token.isTrivia, TokenKind.isTrivia]) (by simp [isSpace])
          | cons char more =>
              apply kept
              have visible : isSpace char = false := by
                refine Bool.eq_false_iff.mpr fun space => ?_
                simp [List.takeWhile_append_of_pos spaces, space] at ends
              rw [run, Lexer.token, if_pos blank, takeWhile_separated visible, List.append_assoc,
                List.cons_append, takeWhile_separated visible]

/-- The space between two tokens of a rendering. -/
def gap : Token :=
  ⟨.whitespace, [' ']⟩

/-- A significant token that is read on its own begins with a visible character. -/
theorem visible_of_tokenize {next : Token} (alone : tokenize next.text = [next])
    (significant : next.isTrivia = false) :
    ∃ first body, next.text = first :: body ∧ isSpace first = false ∧ token first body = next := by
  obtain ⟨first, body, more, text, spelled, read, none⟩ := tokenize_eq_cons alone
  obtain rfl : more = [] := by simpa [spelled] using text
  rw [List.append_nil] at read
  refine ⟨first, body, spelled, Bool.eq_false_iff.mpr fun blank => ?_, read⟩
  rw [token, if_pos blank] at read
  simp [← read, Token.isTrivia, TokenKind.isTrivia] at significant

/-- A token and a space before something visible. -/
theorem tokenize_gap {next : Token} {first : Char} {rest : Text}
    (alone : tokenize next.text = [next]) (significant : next.isTrivia = false)
    (proper : next.kind ≠ .error) (visible : isSpace first = false) :
    tokenize (next.text ++ ' ' :: first :: rest) = next :: gap :: tokenize (first :: rest) := by
  obtain ⟨char, body, text, charVisible, read⟩ := visible_of_tokenize alone significant
  have kept : token char (body ++ ' ' :: first :: rest) = next := by
    rw [token_separated rfl charVisible (by rwa [read]), read]
    intro comment
    simp [Token.isTrivia, ← read, comment, TokenKind.isTrivia] at significant
  rw [text, List.cons_append, tokenize_cons kept text rfl, tokenize_space rfl]
  simp [gap, visible]

/-- Tokens with single spaces between them are read as they are. -/
theorem tokenize_intercalate {tokens : List Token}
    (significant : ∀ token ∈ tokens, token.isTrivia = false)
    (proper : ∀ token ∈ tokens, token.kind ≠ .error)
    (alone : ∀ token ∈ tokens, tokenize token.text = [token]) :
    tokenize ([' '].intercalate (tokens.map Token.text)) = tokens.intersperse gap := by
  induction tokens with
  | nil => rfl
  | cons next others inductionHypothesis =>
      cases others with
      | nil => simpa [List.intercalate] using alone next (.head _)
      | cons second others =>
          have later := inductionHypothesis (fun token listed => significant token (.tail _ listed))
            (fun token listed => proper token (.tail _ listed))
            (fun token listed => alone token (.tail _ listed))
          obtain ⟨first, body, text, visible, -⟩ :=
            visible_of_tokenize (alone second (by simp)) (significant second (by simp))
          obtain ⟨rest, begins⟩ :
              ∃ rest, [' '].intercalate ((second :: others).map Token.text) = first :: rest := by
            cases others <;> simp [List.intercalate, text]
          have split : [' '].intercalate ((next :: second :: others).map Token.text) =
              next.text ++ ' ' :: first :: rest := by
            rw [← begins]
            simp [List.intercalate]
          rw [split, tokenize_gap (alone next (.head _)) (significant next (.head _))
            (proper next (.head _)) visible, ← begins, later]
          rfl

section

variable {tokens : List Token} (significant : ∀ token ∈ tokens, token.isTrivia = false)

include significant

theorem filter_intersperse : (tokens.intersperse gap).filter (! ·.isTrivia) = tokens := by
  induction tokens with
  | nil => rfl
  | cons next others inductionHypothesis =>
      have first : next.isTrivia = false := significant next (.head _)
      have later := inductionHypothesis fun token listed => significant token (.tail _ listed)
      cases others with
      | nil => simp [first]
      | cons second others =>
          have blank : gap.isTrivia = true := rfl
          simpa [List.intersperse, first, blank] using later

theorem breaksLine_of_mem_intersperse : ∀ token ∈ tokens.intersperse gap,
    token.breaksLine = false := by
  induction tokens with
  | nil => simp
  | cons next others inductionHypothesis =>
      have first : next.breaksLine = false := by
        have significant := significant next (.head _)
        cases kind : next.kind <;>
          simp [Token.isTrivia, kind, TokenKind.isTrivia] at significant <;>
          simp [Token.breaksLine, kind]
      have later := inductionHypothesis fun token listed => significant token (.tail _ listed)
      cases others with
      | nil => simpa using first
      | cons second others =>
          have flat : gap.breaksLine = false := rfl
          simpa [List.intersperse, first, flat] using later

end

end Scrapscript.Lexer
