import Scrapscript.Proofs.Token.Language

/-!
Where a token ends. What comes after a token matters in its first two characters only: a token that
is read on its own is read before other text too, unless that text begins with something that makes
it longer.
-/

namespace Scrapscript

open Scrapscript.Lexer (isSpace isWord isLetter isDigit isBase64)

namespace TokenKind

/-- Whether a token becomes longer if a character comes right after it. -/
def grows : TokenKind → Char → Bool
  | whitespace, char => isSpace char
  | comment, char => char != '\n'
  | ident, char | underscore, char => isWord char
  | int, char | float, char => isDigit char
  | bytes, char => isBase64 char
  | dot, char => char == '.'
  | equals, char => char == '='
  | minus, char => char == '>' || char == '-'
  | pipe, char => char == '|' || char == '>'
  | plus, char => char == '+' || char == '<'
  | less, char => char == '=' || char == '<'
  | greater, char => char == '=' || char == '+' || char == '>'
  | _, _ => false

/-- Whether a token becomes longer if two characters come right after it. -/
def growsWith : TokenKind → Char → Char → Bool
  | ident, joint, char => (joint == '/' || joint == '-') && isLetter char
  | int, point, char => point == '.' && isDigit char
  | _, _, _ => false

/-- Whether a token ends where a text begins. -/
def endsBefore (kind : TokenKind) : Text → Bool
  | [] => true
  | [char] => !kind.grows char
  | char :: next :: _ => !(kind.grows char || kind.growsWith char next)

theorem endsBefore_of_one {kind : TokenKind} (one : ∀ char next, kind.growsWith char next = false)
    (text : Text) : kind.endsBefore text = !text.head?.any kind.grows := by
  match text with
  | [] => rfl
  | [_] => rfl
  | _ :: _ :: _ => simp [endsBefore, one]

theorem endsBefore_of_none {kind : TokenKind} (none : ∀ char, kind.grows char = false)
    (one : ∀ char next, kind.growsWith char next = false) (text : Text) :
    kind.endsBefore text = true := by
  rw [endsBefore_of_one one]
  cases text <;> simp [none]

theorem endsBefore_cons {kind : TokenKind} {char : Char} {text : Text}
    (ends : kind.grows char = false) (joins : ∀ next, kind.growsWith char next = false) :
    kind.endsBefore (char :: text) = true := by
  cases text <;> simp [endsBefore, ends, joins]

theorem head_of_endsBefore {kind : TokenKind} {text : Text} (ends : kind.endsBefore text = true) :
    text.head?.any kind.grows = false := by
  match text, ends with
  | [], _ => rfl
  | [_], ends => simpa [endsBefore] using ends
  | _ :: _ :: _, ends =>
      simp only [endsBefore, Bool.not_eq_true', Bool.or_eq_false_iff] at ends
      simpa using ends.1

end TokenKind

namespace Lexer

variable {first : Char} {body more : Text}

theorem takeWhile_eq_nil_iff {accepts : Char → Bool} :
    more.takeWhile accepts = [] ↔ more.head?.any accepts = false := by
  cases more with
  | nil => simp
  | cons char more => cases accepted : accepts char <;> simp [accepted]

theorem takeWhile_append_iff {accepts : Char → Bool} (whole : body.takeWhile accepts = body) :
    (body ++ more).takeWhile accepts = body ↔ more.head?.any accepts = false := by
  have all : ∀ char ∈ body, accepts char = true := by
    rw [← whole]
    exact List.all_eq_true.mp List.all_takeWhile
  rw [List.takeWhile_append_of_pos all, List.append_right_eq_self, takeWhile_eq_nil_iff]

/-- A run of characters that all make a token longer ends before any other. -/
theorem takeWhile_grows_iff (kind : TokenKind)
    (one : ∀ char next, kind.growsWith char next = false)
    (whole : body.takeWhile kind.grows = body) :
    (body ++ more).takeWhile kind.grows = body ↔ kind.endsBefore more = true := by
  rw [takeWhile_append_iff whole, TokenKind.endsBefore_of_one one, Bool.not_eq_true']

theorem identifierRest_eq_nil_iff :
    identifierRest more = [] ↔ TokenKind.ident.endsBefore more = true := by
  match more with
  | [] => simp [identifierRest, TokenKind.endsBefore]
  | [char] =>
      cases word : isWord char <;>
        simp [identifierRest, TokenKind.endsBefore, TokenKind.grows, word]
  | char :: next :: _ =>
      cases word : isWord char with
      | true => simp [identifierRest, TokenKind.endsBefore, TokenKind.grows, word]
      | false =>
          cases joins : (char == '/' || char == '-') && isLetter next <;>
            simp [identifierRest, TokenKind.endsBefore, TokenKind.grows, TokenKind.growsWith, word,
              joins]

theorem identifierRest_append_iff (whole : identifierRest body = body) :
    identifierRest (body ++ more) = body ↔ TokenKind.ident.endsBefore more = true := by
  fun_induction identifierRest body with
  | case1 => exact identifierRest_eq_nil_iff
  | case2 last word =>
      rw [List.singleton_append, identifierRest_word word, List.cons.injEq]
      simp [identifierRest_eq_nil_iff]
  | case3 last word => simp at whole
  | case4 next following rest word inductionHypothesis =>
      rw [List.cons_append, identifierRest_word word]
      simpa using inductionHypothesis (by simpa using whole)
  | case5 next following rest word joins inductionHypothesis =>
      simp only [List.cons_append, identifierRest, word, joins, if_true]
      simpa using inductionHypothesis (by simpa using whole)
  | case6 next following rest word ends => simp at whole

theorem identifier_append_iff {next : Token} (alone : identifier first body = next)
    (whole : next.text = first :: body) :
    identifier first (body ++ more) = next ↔ next.kind.endsBefore more = true := by
  subst alone
  have rest : identifierRest body = body := by simpa [identifier] using whole
  rw [identifier, identifier, rest]
  simpa using identifierRest_append_iff rest

/-- What begins with an underscore: an identifier or the underscore alone. -/
theorem underscore_append_iff {next : Token}
    (alone : (if body.head?.any isWord then identifier first body else ⟨.underscore, [first]⟩) =
      next)
    (whole : next.text = first :: body) :
    (if (body ++ more).head?.any isWord then identifier first (body ++ more)
        else ⟨.underscore, [first]⟩) = next ↔ next.kind.endsBefore more = true := by
  cases body with
  | nil =>
      obtain rfl : _ = next := alone
      cases more with
      | nil => simp [TokenKind.endsBefore]
      | cons char more =>
          rw [TokenKind.endsBefore_of_one fun _ _ => rfl]
          cases word : isWord char <;> simp [word, identifier, TokenKind.grows]
  | cons char rest =>
      cases word : isWord char with
      | true =>
          simp only [List.head?_cons, Option.any_some, word, if_true] at alone
          simpa [word] using identifier_append_iff alone whole
      | false =>
          simp only [List.head?_cons, Option.any_some, word] at alone
          obtain rfl : _ = next := alone
          simp at whole

theorem fraction_eq_nil_iff (visible : more.head?.any isDigit = false) :
    fraction more = [] ↔ TokenKind.int.endsBefore more = true := by
  match more with
  | [] => simp [fraction, TokenKind.endsBefore]
  | [char] =>
      have digit : isDigit char = false := by simpa using visible
      simp [fraction, TokenKind.endsBefore, TokenKind.grows, digit]
  | char :: next :: _ =>
      have digit : isDigit char = false := by simpa using visible
      cases point : (char == '.') && isDigit next <;>
        simp [fraction, TokenKind.endsBefore, TokenKind.grows, TokenKind.growsWith, digit, point]

/-- A whole number goes on with digits, or with a point and a digit. -/
theorem int_append_iff (digits : body.takeWhile isDigit = body) :
    number first (body ++ more) = ⟨.int, first :: body⟩ ↔
      TokenKind.int.endsBefore more = true := by
  have all : ∀ char ∈ body, isDigit char = true := by
    rw [← digits]
    exact List.all_eq_true.mp List.all_takeWhile
  have text := number_text first (body ++ more)
  rw [List.takeWhile_append_of_pos all, List.dropWhile_append_of_pos all] at text
  have kept (none : more.takeWhile isDigit = []) : more.dropWhile isDigit = more := by
    have parts := List.takeWhile_append_dropWhile (p := isDigit) (l := more)
    rwa [none, List.nil_append] at parts
  constructor
  · intro same
    rw [same, List.cons.injEq, List.append_assoc] at text
    obtain ⟨none, fractions⟩ :=
      List.append_eq_nil_iff.mp (List.append_right_eq_self.mp text.2.symm)
    rw [kept none] at fractions
    exact (fraction_eq_nil_iff (takeWhile_eq_nil_iff.mp none)).mp fractions
  · intro ends
    have visible := TokenKind.head_of_endsBefore ends
    have none : more.takeWhile isDigit = [] := takeWhile_eq_nil_iff.mpr visible
    simp [number, List.takeWhile_append_of_pos all, List.dropWhile_append_of_pos all, none,
      kept none, (fraction_eq_nil_iff visible).mpr ends]

theorem fraction_eq_cons {text others : Text} {point : Char}
    (read : fraction text = point :: others) :
    point = '.' ∧ ∃ first rest, text = point :: first :: rest ∧ isDigit first = true ∧
      others = first :: rest.takeWhile isDigit := by
  unfold fraction at read
  split at read
  · split at read
    · rename_i begins
      simp only [Bool.and_eq_true, beq_iff_eq] at begins
      simp only [List.cons.injEq] at read
      obtain ⟨rfl, rfl⟩ := read
      exact ⟨begins.1, _, _, rfl, begins.2, rfl⟩
    · contradiction
  · contradiction

theorem number_append_iff (whole : (number first body).text = first :: body) :
    number first (body ++ more) = number first body ↔
      (number first body).kind.endsBefore more = true := by
  rw [number_text, List.cons.injEq] at whole
  cases decimals : fraction (body.dropWhile isDigit) with
  | nil =>
      have digits : body.takeWhile isDigit = body := by simpa [decimals] using whole.2
      have int : number first body = ⟨.int, first :: body⟩ := by simp [number, decimals, digits]
      rw [int]
      exact int_append_iff digits
  | cons point others =>
      obtain ⟨rfl, second, rest, split, digit, rfl⟩ := fraction_eq_cons decimals
      have parts := List.takeWhile_append_dropWhile (p := isDigit) (l := body)
      rw [split] at parts
      have tail : rest.takeWhile isDigit = rest := by
        have same := whole.2.trans parts.symm
        rw [decimals] at same
        simpa using same
      have all : ∀ char ∈ body.takeWhile isDigit, isDigit char = true :=
        List.all_eq_true.mp List.all_takeWhile
      generalize body.takeWhile isDigit = digits at parts all
      have float (more : Text) : number first (digits ++ '.' :: second :: more) =
          ⟨.float, first :: (digits ++ '.' :: second :: more.takeWhile isDigit)⟩ := by
        have point : isDigit '.' = false := rfl
        simp [number, List.takeWhile_append_of_pos all, List.dropWhile_append_of_pos all, point,
          fraction, digit]
      rw [← parts, List.append_assoc, List.cons_append, List.cons_append, float, float, tail]
      have ends : (rest ++ more).takeWhile isDigit = rest ↔
          TokenKind.float.endsBefore more = true :=
        takeWhile_grows_iff .float (fun _ _ => rfl) tail
      simpa using ends

theorem tilde_append_iff (whole : (tilde body).text = '~' :: body)
    (proper : (tilde body).kind ≠ .error) :
    tilde (body ++ more) = tilde body ↔ (tilde body).kind.endsBefore more = true := by
  cases body with
  | nil => simp [tilde] at proper
  | cons next rest =>
      by_cases doubled : (next == '~') = true
      · have bytes (rest : Text) : tilde (next :: rest) =
            ⟨.bytes, '~' :: next :: rest.takeWhile isBase64⟩ := by simp [tilde, doubled]
        rw [bytes] at whole
        have tail : rest.takeWhile isBase64 = rest := by simpa using whole
        rw [List.cons_append, bytes, bytes, tail]
        have ends : (rest ++ more).takeWhile isBase64 = rest ↔
            TokenKind.bytes.endsBefore more = true :=
          takeWhile_grows_iff .bytes (fun _ _ => rfl) tail
        simpa using ends
      · have digits : (isHexDigit next && rest.head?.any isHexDigit) = true := by
          refine Decidable.byContradiction fun refused => ?_
          simp [tilde, doubled, refused] at proper
        have byte (rest : Text) (digits : (isHexDigit next && rest.head?.any isHexDigit) = true) :
            tilde (next :: rest) = ⟨.byte, '~' :: next :: rest.take 1⟩ := by
          simp [tilde, doubled, digits]
        rw [byte rest digits] at whole ⊢
        cases rest with
        | nil => simp at digits
        | cons second rest =>
            obtain rfl : rest = [] := by simpa using whole.symm
            have still := byte (second :: more) digits
            simpa [still] using TokenKind.endsBefore_of_none (fun _ => rfl) (fun _ _ => rfl) more

/-- A symbol of two characters does not become longer. -/
theorem endsBefore_of_two {second : Char} {rest : Text} {next : Token}
    (read : symbol? first (second :: rest) = some next) (two : next.text = [first, second]) :
    next.kind.endsBefore more = true := by
  apply TokenKind.endsBefore_of_none
  · intro char
    unfold symbol? at read
    split at read <;> grind [TokenKind.grows]
  · intro char following
    unfold symbol? at read
    split at read <;> grind [TokenKind.growsWith]

theorem symbol?_append_iff {next : Token} (read : symbol? first body = some next)
    (whole : next.text = first :: body) (plain : first ≠ '-') :
    symbol? first (body ++ more) = some next ↔ next.kind.endsBefore more = true := by
  cases body with
  | cons second rest =>
      have same : symbol? first (second :: rest ++ more) = some next :=
        (symbol?_congr rfl).trans read
      have two : next.text = [first, second] := by
        unfold symbol? at read
        split at read <;> grind
      simp only [same, endsBefore_of_two read two]
  | nil =>
      rw [List.nil_append]
      have head (kind : TokenKind) (one : ∀ char following, kind.growsWith char following = false) :
          kind.endsBefore more = !more.head?.any kind.grows :=
        TokenKind.endsBefore_of_one one more
      unfold symbol? at read ⊢
      split at read
      all_goals
        simp only [List.head?_nil, reduceCtorEq, if_false, Option.some.injEq] at read
      all_goals
        subst read
        rw [head _ fun _ _ => rfl]
        cases more <;> grind [TokenKind.grows]

/-- What begins with a dash: a comment, an arrow or the dash alone. -/
theorem dash_append_iff {next : Token}
    (alone : (if body.head?.any (· == '-') then ⟨.comment, '-' :: body.takeWhile (· != '\n')⟩
      else (symbol? '-' body).getD ⟨.error, ['-']⟩) = next)
    (whole : next.text = '-' :: body) :
    (if (body ++ more).head?.any (· == '-') then
        ⟨.comment, '-' :: (body ++ more).takeWhile (· != '\n')⟩
      else (symbol? '-' (body ++ more)).getD ⟨.error, ['-']⟩) = next ↔
      next.kind.endsBefore more = true := by
  cases body with
  | nil =>
      obtain rfl : _ = next := alone
      cases more with
      | nil => simp [symbol?, TokenKind.endsBefore]
      | cons char more =>
          simp only [symbol?, List.nil_append, List.head?_nil, reduceCtorEq, if_false,
            Option.getD_some, Option.any_none]
          rw [TokenKind.endsBefore_of_one (by simp [TokenKind.growsWith])]
          simp only [List.head?_cons, Option.any_some, beq_iff_eq, Option.some.injEq,
            TokenKind.grows, Bool.not_or, Bool.and_eq_true, Bool.not_eq_true',
            beq_eq_false_iff_ne]
          grind
  | cons char rest =>
      by_cases commented : char = '-'
      · simp only [commented, List.head?_cons, Option.any_some, beq_self_eq_true, if_true,
          List.cons_append] at alone ⊢
        subst alone
        have line : ('-' :: rest).takeWhile (· != '\n') = '-' :: rest := by
          simpa [commented] using whole
        have ends : ('-' :: rest ++ more).takeWhile (· != '\n') = '-' :: rest ↔
            TokenKind.comment.endsBefore more = true :=
          takeWhile_grows_iff .comment (fun _ _ => rfl) line
        rw [← ends, line]
        simp
      · have other : (some char).any (· == '-') = false := by simpa using commented
        simp only [List.cons_append, List.head?_cons, other] at alone ⊢
        have arrow : char = '>' ∧ rest = [] ∧ next = ⟨.arrow, ['-', '>']⟩ := by
          simp only [symbol?, List.head?_cons] at alone
          grind
        obtain ⟨rfl, rfl, rfl⟩ := arrow
        simpa [symbol?] using TokenKind.endsBefore_of_none (fun _ => rfl) (fun _ _ => rfl) more

/-- A token that is read on its own is read before another text exactly if it ends there. -/
theorem token_append_iff {next : Token} (alone : token first body = next)
    (whole : next.text = first :: body) (proper : next.kind ≠ .error) :
    token first (body ++ more) = next ↔ next.kind.endsBefore more = true := by
  cases reading first with
  | space blank reads =>
      rw [reads] at alone
      subst alone
      have spaces : body.takeWhile isSpace = body := by simpa using whole
      have ends : (body ++ more).takeWhile isSpace = body ↔
          TokenKind.whitespace.endsBefore more = true :=
        takeWhile_grows_iff .whitespace (fun _ _ => rfl) spaces
      simpa [reads, spaces] using ends
  | dash begins reads =>
      subst begins
      rw [reads] at alone ⊢
      exact dash_append_iff alone whole
  | letter reads =>
      rw [reads] at alone ⊢
      exact identifier_append_iff alone whole
  | underscore reads =>
      rw [reads] at alone ⊢
      exact underscore_append_iff alone whole
  | digit reads =>
      rw [reads] at alone
      subst alone
      rw [reads, number_append_iff whole]
  | quote reads =>
      rw [reads] at alone
      subst alone
      have closed : (stringBody body).1 = true := by simpa using proper
      rw [reads, stringBody_separated closed, closed]
      simpa using TokenKind.endsBefore_of_none (fun _ => rfl) (fun _ _ => rfl) more
  | tilde begins reads =>
      subst begins
      rw [reads] at alone
      subst alone
      rw [reads, tilde_append_iff whole proper]
  | symbol reads =>
      have plain : first ≠ '-' := by
        rintro rfl
        exact absurd (reads ['-']) (by decide)
      rw [reads] at alone ⊢
      have found : symbol? first body = some next := by
        cases read : symbol? first body with
        | none =>
            rw [read] at alone
            exact absurd (congrArg Token.kind alone).symm proper
        | some token => rw [read] at alone; exact congrArg some alone
      rw [← symbol?_append_iff found whole plain]
      cases symbol? first (body ++ more) with
      | none =>
          refine iff_of_false (fun same => ?_) (by simp)
          exact absurd (congrArg Token.kind same).symm proper
      | some token => simp

/-- Tokens that can stand one right after the other: each of them is read on its own and ends where
the next one begins. -/
def Chained : List Token → Prop
  | [] => True
  | next :: rest =>
      tokenize next.text = [next] ∧ next.kind.endsBefore (Token.textOf rest) = true ∧ Chained rest

theorem Chained.of_tokenize {tokens : List Token} (proper : ∀ token ∈ tokens, token.kind ≠ .error)
    (read : tokenize (Token.textOf tokens) = tokens) : Chained tokens := by
  induction tokens with
  | nil => trivial
  | cons next rest inductionHypothesis =>
      obtain ⟨first, body, more, text, spelled, token, others⟩ := tokenize_eq_cons read
      have left : more = Token.textOf rest := by rw [← others, textOf_tokenize]
      have alone : tokenize next.text = [next] := by
        have start := tokenize_textOf_start (show _ = [next] ++ rest from read)
        simpa [Token.textOf] using start
      have fits : (Lexer.token first (body ++ more)).text <+: first :: body := by
        rw [token, spelled]
      have single := token_of_fits fits
      refine ⟨alone, ?_, inductionHypothesis (fun token listed => proper token (.tail _ listed)) ?_⟩
      · rw [← left]
        exact (token_append_iff (single.symm.trans token) spelled (proper next (.head _))).mp token
      · rw [← left, others]

theorem Chained.tokenize_textOf {tokens : List Token}
    (proper : ∀ token ∈ tokens, token.kind ≠ .error) (chained : Chained tokens) : tokenize (Token.textOf tokens) = tokens := by
  induction tokens with
  | nil => rfl
  | cons next rest inductionHypothesis =>
      obtain ⟨alone, ends, others⟩ := chained
      obtain ⟨first, body, more, text, spelled, token, none⟩ := tokenize_eq_cons alone
      obtain rfl : more = [] := by simpa [spelled] using text
      rw [List.append_nil] at token
      have read := (token_append_iff token spelled (proper next (.head _))).mpr ends
      have whole : Token.textOf (next :: rest) = first :: (body ++ Token.textOf rest) := by
        simp [Token.textOf, spelled]
      rw [whole, tokenize_cons read spelled rfl,
        inductionHypothesis (fun token listed => proper token (.tail _ listed)) others]

end Lexer

end Scrapscript
