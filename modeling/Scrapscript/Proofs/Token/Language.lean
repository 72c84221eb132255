import Mathlib.Computability.Language
import Mathlib.Data.List.TakeWhile
import Scrapscript.Proofs.Token.Separation

/-!
The language of each kind of token, written as a regular expression over characters. The token at
the start of a text belongs to the language of its kind, and a text of such a language is read as
one token.
-/

namespace Scrapscript

open scoped Computability
open Scrapscript.Lexer

namespace TokenKind

/-- The texts of one character that is accepted. -/
def one (accepts : Char → Bool) : Language Char :=
  {word | ∃ char, accepts char = true ∧ word = [char]}

/-- The texts of at least one character, all of them accepted. -/
def oneOrMore (accepts : Char → Bool) : Language Char :=
  one accepts * (one accepts)∗

/-- Further segments of an identifier, each joined by a slash or a hyphen and begun by a letter. -/
def segments : Language Char :=
  (one (fun char => char == '/' || char == '-') * one isLetter * (one isWord)∗)∗

/-- What may stand between the quotes of a string: any character but quote and backslash, and a
backslash with any character but a line break. -/
def quotable : Language Char :=
  (one (fun char => char != '"' && char != '\\') + {['\\']} * one (· != '\n'))∗

/-- The kinds that are spelled in one way only. -/
def symbols : List (TokenKind × Text) :=
  [(underscore, ['_']), (openParen, ['(']), (closeParen, [')']), (openBracket, ['[']),
    (closeBracket, [']']), (openBrace, ['{']), (closeBrace, ['}']), (comma, [',']),
    (semicolon, [';']), (colon, [':']), (dot, ['.']), (dotDot, ['.', '.']), (hash, ['#']),
    (equals, ['=']), (arrow, ['-', '>']), (pipe, ['|']), (question, ['?']), (plus, ['+']),
    (minus, ['-']), (star, ['*']), (slash, ['/']), (percent, ['%']), (caret, ['^']),
    (equal, ['=', '=']), (notEqual, ['!', '=']), (less, ['<']), (greater, ['>']),
    (lessEqual, ['<', '=']), (greaterEqual, ['>', '=']), (logicalAnd, ['&', '&']),
    (logicalOr, ['|', '|']), (concat, ['+', '+']), (cons, ['>', '+']), (snoc, ['+', '<']),
    (pipeline, ['|', '>']), (compose, ['>', '>']), (composeBack, ['<', '<'])]

/-- The texts that belong to a kind. No text belongs to the kind of errors. -/
def language : TokenKind → Language Char
  | whitespace => oneOrMore isSpace
  | comment => {['-', '-']} * (one (· != '\n'))∗
  | ident => (one isLetter * (one isWord)∗ + {['_']} * oneOrMore isWord) * segments
  | int => oneOrMore isDigit
  | float => oneOrMore isDigit * {['.']} * oneOrMore isDigit
  | string => {['"']} * quotable * {['"']}
  | bytes => {['~', '~']} * (one isBase64)∗
  | byte => {['~']} * one isHexDigit * one isHexDigit
  | kind => {word | (kind, word) ∈ symbols}

variable {accepts : Char → Bool} {char : Char} {word rest : Text} {others : Language Char}

theorem mem_kstar_one : word ∈ (one accepts)∗ ↔ ∀ char ∈ word, accepts char = true := by
  rw [Language.mem_kstar]
  constructor
  · rintro ⟨parts, rfl, all⟩ char listed
    obtain ⟨part, member, inside⟩ := List.mem_flatten.mp listed
    obtain ⟨single, accepted, rfl⟩ := all part member
    rwa [List.mem_singleton.mp inside]
  · intro all
    refine ⟨word.map fun char => [char], (List.flatMap_singleton' word).symm, ?_⟩
    intro part listed
    obtain ⟨char, member, rfl⟩ := List.mem_map.mp listed
    exact ⟨char, all char member, rfl⟩

theorem mem_one_mul : word ∈ one accepts * others ↔
    ∃ char rest, accepts char = true ∧ rest ∈ others ∧ word = char :: rest := by
  rw [Language.mem_mul]
  constructor
  · rintro ⟨_, ⟨char, accepted, rfl⟩, rest, member, rfl⟩
    exact ⟨char, rest, accepted, member, rfl⟩
  · rintro ⟨char, rest, accepted, member, rfl⟩
    exact ⟨[char], ⟨char, accepted, rfl⟩, rest, member, rfl⟩

@[simp]
theorem cons_mem_one_mul : char :: rest ∈ one accepts * others ↔
    accepts char = true ∧ rest ∈ others := by
  rw [mem_one_mul]
  constructor
  · rintro ⟨_, _, accepted, member, same⟩
    obtain ⟨rfl, rfl⟩ := List.cons.inj same
    exact ⟨accepted, member⟩
  · rintro ⟨accepted, member⟩
    exact ⟨char, rest, accepted, member, rfl⟩

theorem cons_mem_oneOrMore : char :: rest ∈ oneOrMore accepts ↔
    accepts char = true ∧ ∀ other ∈ rest, accepts other = true := by
  rw [oneOrMore, cons_mem_one_mul, mem_kstar_one]

@[simp]
theorem mem_text_mul {text : Text} : word ∈ ({text} * others : Language Char) ↔
    ∃ rest ∈ others, word = text ++ rest := by
  rw [Language.mem_mul]
  constructor
  · rintro ⟨_, rfl, rest, member, rfl⟩
    exact ⟨rest, member, rfl⟩
  · rintro ⟨rest, member, rfl⟩
    exact ⟨text, rfl, rest, member, rfl⟩

theorem kstar_mul (repeated last : Language Char) :
    repeated∗ * last = last + repeated * (repeated∗ * last) :=
  calc
    repeated∗ * last = (1 + repeated * repeated∗) * last := by
      rw [Language.one_add_self_mul_kstar_eq_kstar]
    _ = last + repeated * (repeated∗ * last) := by rw [add_mul, one_mul, mul_assoc]

/-- What holds of every ending and is kept by one more part in front holds of every repetition. -/
theorem kstar_mul_induction {repeated last : Language Char} (holds : Text → Prop)
    (ends : ∀ word ∈ last, holds word)
    (goes : ∀ part ∈ repeated, ∀ word, holds word → holds (part ++ word))
    (member : word ∈ repeated∗ * last) : holds word := by
  obtain ⟨_, ⟨parts, rfl, all⟩, ending, isLast, rfl⟩ := Language.mem_mul.mp member
  clear member
  induction parts with
  | nil => exact ends ending isLast
  | cons part parts inductionHypothesis =>
      show holds ((part ++ parts.flatten) ++ ending)
      rw [List.append_assoc]
      exact goes part (all part (.head _)) _
        (inductionHypothesis fun part listed => all part (.tail _ listed))

end TokenKind

namespace Lexer

open TokenKind

variable {first : Char} {rest body : Text} {kind : TokenKind}

theorem takeWhile_mem_kstar (accepts : Char → Bool) (text : Text) :
    text.takeWhile accepts ∈ (one accepts)∗ :=
  mem_kstar_one.mpr (List.all_eq_true.mp List.all_takeWhile)

theorem takeWhile_of_mem_kstar {accepts : Char → Bool} {text : Text}
    (member : text ∈ (one accepts)∗) : text.takeWhile accepts = text :=
  List.takeWhile_eq_self_iff.mpr (mem_kstar_one.mp member)

/-- What may follow the first character of an identifier. -/
def continuations : Language Char :=
  (one isWord)∗ * segments

theorem cons_mem_continuations {char : Char} (word : isWord char = true)
    (member : rest ∈ continuations) : char :: rest ∈ continuations := by
  rw [continuations, kstar_mul, Language.mem_add]
  exact .inr (cons_mem_one_mul.mpr ⟨word, member⟩)

theorem joined_mem_continuations {joint letter : Char}
    (joins : (joint == '/' || joint == '-') = true) (begins : isLetter letter = true)
    (member : rest ∈ continuations) : joint :: letter :: rest ∈ continuations := by
  rw [continuations, kstar_mul, Language.mem_add]
  refine .inl ?_
  rw [segments, ← mul_one (_∗), kstar_mul, Language.mem_add, mul_one, mul_assoc, mul_assoc]
  exact .inr (cons_mem_one_mul.mpr ⟨joins, cons_mem_one_mul.mpr ⟨begins, member⟩⟩)

theorem nil_mem_continuations : [] ∈ continuations :=
  Language.append_mem_mul (Language.nil_mem_kstar _) (Language.nil_mem_kstar _)

theorem identifierRest_mem (text : Text) : identifierRest text ∈ continuations := by
  fun_induction identifierRest text with
  | case1 => exact nil_mem_continuations
  | case2 last word => exact cons_mem_continuations word nil_mem_continuations
  | case3 last refused => exact nil_mem_continuations
  | case4 next following rest word inductionHypothesis =>
      exact cons_mem_continuations word inductionHypothesis
  | case5 next following rest refused joins inductionHypothesis =>
      obtain ⟨joint, letter⟩ := Bool.and_eq_true_iff.mp joins
      exact joined_mem_continuations joint letter inductionHypothesis
  | case6 next following rest refused ends => exact nil_mem_continuations

theorem identifierRest_word {char : Char} (word : isWord char = true) (text : Text) :
    identifierRest (char :: text) = char :: identifierRest text := by
  cases text <;> simp [identifierRest, word]

theorem identifierRest_words {words : Text} (member : words ∈ (one isWord)∗) (text : Text) :
    identifierRest (words ++ text) = words ++ identifierRest text := by
  have all := mem_kstar_one.mp member
  clear member
  induction words with
  | nil => rfl
  | cons char words inductionHypothesis =>
      rw [List.cons_append, identifierRest_word (all char (.head _)),
        inductionHypothesis fun char listed => all char (.tail _ listed)]
      rfl

theorem identifierRest_joined {joint letter : Char} (joins : (joint == '/' || joint == '-') = true)
    (begins : isLetter letter = true) (text : Text) :
    identifierRest (joint :: letter :: text) = joint :: letter :: identifierRest text := by
  have refused : isWord joint = false := by
    obtain slash | hyphen := Bool.or_eq_true_iff.mp joins
    · rw [eq_of_beq slash]; decide
    · rw [eq_of_beq hyphen]; decide
  simp only [identifierRest, refused, joins, begins]
  rfl

theorem identifierRest_of_mem {text : Text} (member : text ∈ continuations) :
    identifierRest text = text := by
  obtain ⟨words, all, joined, isJoined, rfl⟩ := Language.mem_mul.mp member
  rw [identifierRest_words all]
  congr 1
  rw [← mul_one segments] at isJoined
  -- Segment by segment, the last one first.
  refine kstar_mul_induction (fun text => identifierRest text = text) ?_ ?_ isJoined
  · rintro _ rfl
    rfl
  · intro part isSegment text fixed
    rw [mul_assoc, Language.mem_mul] at isSegment
    obtain ⟨_, ⟨joint, joins, rfl⟩, _, ⟨_, ⟨letter, begins, rfl⟩, words, all, rfl⟩, rfl⟩ :=
      isSegment
    show identifierRest (joint :: letter :: (words ++ text)) = joint :: letter :: (words ++ text)
    rw [identifierRest_joined joins begins, identifierRest_words all, fixed]

theorem cons_mem_ident : first :: body ∈ language .ident ↔
    isLetter first = true ∧ body ∈ continuations ∨
      first = '_' ∧ body ∈ one isWord * continuations := by
  have split : language .ident =
      one isLetter * continuations + {['_']} * (one isWord * continuations) := by
    show (one isLetter * _ + {['_']} * (one isWord * _)) * segments = _
    rw [add_mul, mul_assoc, mul_assoc, mul_assoc, continuations]
  rw [split, Language.mem_add, cons_mem_one_mul, mem_text_mul]
  apply or_congr_right
  constructor
  · rintro ⟨rest, member, same⟩
    obtain ⟨rfl, rfl⟩ := List.cons.inj same
    exact ⟨rfl, member⟩
  · rintro ⟨rfl, member⟩
    exact ⟨body, member, rfl⟩

/-- The characters of an identifier. -/
def isNameChar (char : Char) : Bool :=
  isWord char || char == '/' || char == '-'

theorem isNameChar_identifierRest (text : Text) :
    ∀ char ∈ identifierRest text, isNameChar char = true := by
  fun_induction identifierRest text with
  | case1 => exact List.forall_mem_nil _
  | case2 last word => simp [isNameChar, word]
  | case3 last refused => exact List.forall_mem_nil _
  | case4 next following rest word inductionHypothesis =>
      exact List.forall_mem_cons.mpr ⟨by simp [isNameChar, word], inductionHypothesis⟩
  | case5 next following rest refused joins inductionHypothesis =>
      obtain ⟨joint, letter⟩ := Bool.and_eq_true_iff.mp joins
      refine List.forall_mem_cons.mpr ⟨by simpa [isNameChar, refused] using joint, ?_⟩
      exact List.forall_mem_cons.mpr ⟨by simp [isNameChar, isWord, letter], inductionHypothesis⟩
  | case6 next following rest refused ends => exact List.forall_mem_nil _

theorem isNameChar_of_mem_ident {word : Text} (member : word ∈ language .ident) :
    ∀ char ∈ word, isNameChar char = true := by
  cases word with
  | nil => exact List.forall_mem_nil _
  | cons first body =>
      rcases cons_mem_ident.mp member with ⟨letter, continues⟩ | ⟨rfl, more⟩
      · rw [← identifierRest_of_mem continues]
        exact List.forall_mem_cons.mpr
          ⟨by simp [isNameChar, isWord, letter], isNameChar_identifierRest body⟩
      · obtain ⟨char, rest, word, continues, rfl⟩ := mem_one_mul.mp more
        rw [← identifierRest_of_mem continues]
        exact List.forall_mem_cons.mpr ⟨rfl, List.forall_mem_cons.mpr
          ⟨by simp [isNameChar, word], isNameChar_identifierRest rest⟩⟩

theorem isBlank_of_isNameChar {char : Char} (accepted : isNameChar char = true) :
    Text.isBlank char = false := by
  have bounds : 0x2D ≤ char.toNat ∧ char.toNat < 0x7F := by
    simp only [isNameChar, isWord, isLetter, isDigit, Bool.or_eq_true, Bool.and_eq_true,
      decide_eq_true_eq, beq_iff_eq, Char.le_def, UInt32.le_iff_toNat_le] at accepted
    rcases accepted with ((((small | capital) | digit) | rfl) | rfl) | rfl
    · exact ⟨Nat.le_trans (by decide) small.1, Nat.lt_of_le_of_lt small.2 (by decide)⟩
    · exact ⟨Nat.le_trans (by decide) capital.1, Nat.lt_of_le_of_lt capital.2 (by decide)⟩
    · exact ⟨Nat.le_trans (by decide) digit.1, Nat.lt_of_le_of_lt digit.2 (by decide)⟩
    all_goals decide
  simp only [Text.isBlank, Bool.or_eq_false_iff, Bool.and_eq_false_iff, decide_eq_false_iff_not,
    beq_eq_false_iff_ne]
  omega

theorem dropWhile_of_none {word : Text} {drops : Char → Bool}
    (kept : ∀ char ∈ word, drops char = false) : word.dropWhile drops = word := by
  cases word with
  | nil => rfl
  | cons first rest => exact List.dropWhile_cons_of_neg (by simp [kept first (.head _)])

/-- An identifier has no blanks around it. -/
theorem trim_of_name {word : Text} (accepted : ∀ char ∈ word, isNameChar char = true) :
    word.trim = word := by
  have visible : ∀ char ∈ word, Text.isBlank char = false :=
    fun char listed => isBlank_of_isNameChar (accepted char listed)
  rw [Text.trim, Text.trimStart, dropWhile_of_none visible,
    dropWhile_of_none fun char listed => visible char (List.mem_reverse.mp listed),
    List.reverse_reverse]

/-- Whether a token belongs to its kind. Of an error nothing is asked. -/
def Belongs (token : Token) : Prop :=
  token.kind ≠ .error → token.text ∈ token.kind.language

theorem isLetter_of_isDigit (digit : isDigit first = true) : isLetter first = false := by
  simp only [isDigit, isLetter, Char.le_def, UInt32.le_iff_toNat_le, Bool.and_eq_true,
    decide_eq_true_eq, Bool.or_eq_false_iff, Bool.and_eq_false_iff, decide_eq_false_iff_not]
    at digit ⊢
  have : '0'.val.toNat = 48 := rfl
  have : '9'.val.toNat = 57 := rfl
  have : 'a'.val.toNat = 97 := rfl
  have : 'A'.val.toNat = 65 := rfl
  omega

theorem fraction_mem {text : Text} (present : fraction text ≠ []) :
    fraction text ∈ ({['.']} * oneOrMore isDigit : Language Char) := by
  unfold fraction at present ⊢
  split at present
  · rename_i point first rest
    split at present
    · rename_i begins
      rw [if_pos begins]
      obtain ⟨point, digit⟩ := Bool.and_eq_true_iff.mp begins
      rw [mem_text_mul]
      refine ⟨_, cons_mem_one_mul.mpr ⟨digit, takeWhile_mem_kstar isDigit rest⟩, ?_⟩
      rw [eq_of_beq point]
      rfl
    · contradiction
  · contradiction

theorem number_belongs (digit : isDigit first = true) (rest : Text) :
    Belongs (number first rest) := by
  have whole : first :: rest.takeWhile isDigit ∈ oneOrMore isDigit :=
    cons_mem_one_mul.mpr ⟨digit, takeWhile_mem_kstar _ _⟩
  intro _
  unfold number
  split
  · exact whole
  · rename_i decimals present
    show _ ∈ oneOrMore isDigit * _ * _
    rw [mul_assoc]
    exact Language.append_mem_mul whole (fraction_mem present)

theorem number_of_mem_int (member : first :: body ∈ language .int) :
    isDigit first = true ∧ number first body = ⟨.int, first :: body⟩ := by
  obtain ⟨digit, digits⟩ := cons_mem_oneOrMore.mp member
  have whole : body.takeWhile isDigit = body := List.takeWhile_eq_self_iff.mpr digits
  have ended : body.dropWhile isDigit = [] := List.dropWhile_eq_nil_iff.mpr digits
  exact ⟨digit, by simp [number, whole, ended, fraction]⟩

theorem number_of_mem_float (member : first :: body ∈ language .float) :
    isDigit first = true ∧ number first body = ⟨.float, first :: body⟩ := by
  have split : language .float =
      one isDigit * ((one isDigit)∗ * ({['.']} * (one isDigit * (one isDigit)∗))) := by
    show one isDigit * _ * {['.']} * (one isDigit * _) = _
    rw [mul_assoc, mul_assoc]
  rw [split, cons_mem_one_mul, Language.mem_mul] at member
  obtain ⟨begins, whole, digits, decimals, present, rfl⟩ := member
  obtain ⟨_, decimal, rfl⟩ := mem_text_mul.mp present
  obtain ⟨digit, more, accepted, others, rfl⟩ := mem_one_mul.mp decimal
  have digits := mem_kstar_one.mp digits
  have point : isDigit '.' = false := by decide
  refine ⟨begins, ?_⟩
  simp [number, List.takeWhile_append_of_pos digits, List.dropWhile_append_of_pos digits, point,
    fraction, accepted, takeWhile_of_mem_kstar others]

/-- What may follow the opening quote of a string. -/
def closings : Language Char :=
  quotable * {['"']}

theorem plain_mem_closings {char : Char} (quote : ¬ (char == '"') = true)
    (backslash : ¬ (char == '\\') = true) (member : rest ∈ closings) :
    char :: rest ∈ closings := by
  rw [closings, quotable, kstar_mul, Language.mem_add, add_mul, Language.mem_add]
  refine .inr (.inl (cons_mem_one_mul.mpr ⟨?_, member⟩))
  simp [bne, quote, backslash]

theorem escaped_mem_closings {escaped : Char} (plain : ¬ (escaped == '\n') = true)
    (member : rest ∈ closings) : '\\' :: escaped :: rest ∈ closings := by
  rw [closings, quotable, kstar_mul, Language.mem_add, add_mul, Language.mem_add, mul_assoc]
  refine .inr (.inr (mem_text_mul.mpr ⟨escaped :: rest, cons_mem_one_mul.mpr ⟨?_, member⟩, rfl⟩))
  simp [bne, plain]

theorem stringBody_mem {text : Text} (closed : (stringBody text).1 = true) :
    (stringBody text).2 ∈ closings := by
  fun_induction stringBody text with
  | case1 | case3 | case4 => contradiction
  | case2 char rest quote =>
      rw [eq_of_beq quote]
      exact Language.append_mem_mul (Language.nil_mem_kstar _) rfl
  | case5 char quote backslash escaped more plain closed body ended inductionHypothesis =>
      rw [ended] at inductionHypothesis
      rw [eq_of_beq backslash]
      exact escaped_mem_closings plain (inductionHypothesis ‹_›)
  | case6 char rest quote backslash closed body ended inductionHypothesis =>
      rw [ended] at inductionHypothesis
      exact plain_mem_closings quote backslash (inductionHypothesis ‹_›)

theorem stringBody_of_mem {text : Text} (member : text ∈ closings) :
    stringBody text = (true, text) := by
  refine kstar_mul_induction (fun text => stringBody text = (true, text)) ?_ ?_ member
  · rintro _ rfl
    rfl
  · intro part member text read
    obtain ⟨char, plain, rfl⟩ | ⟨_, rfl, _, ⟨char, plain, rfl⟩, rfl⟩ := member
    · have ⟨quote, backslash⟩ : ¬ (char == '"') = true ∧ ¬ (char == '\\') = true := by
        simpa [bne] using plain
      rw [List.singleton_append, stringBody_plain quote backslash, read]
    · have unbroken : (char == '\n') = false := by simpa [bne] using plain
      simp [stringBody, unbroken, read]

theorem tilde_belongs (rest : Text) : Belongs (tilde rest) := by
  unfold tilde
  split
  · intro proper
    contradiction
  · rename_i next body
    split
    · rename_i doubled
      intro _
      rw [eq_of_beq doubled]
      exact mem_text_mul.mpr ⟨_, takeWhile_mem_kstar isBase64 body, rfl⟩
    · split
      · rename_i digits
        intro _
        obtain ⟨upper, lower⟩ := Bool.and_eq_true_iff.mp digits
        obtain ⟨digit, more, rfl⟩ : ∃ digit more, body = digit :: more := by
          cases body with
          | nil => simp at lower
          | cons digit more => exact ⟨digit, more, rfl⟩
        exact ⟨['~', next], ⟨['~'], rfl, [next], ⟨next, upper, rfl⟩, rfl⟩, [digit],
          ⟨digit, lower, rfl⟩, rfl⟩
      · intro proper
        contradiction

theorem tilde_of_mem_bytes (member : first :: body ∈ language .bytes) :
    first = '~' ∧ tilde body = ⟨.bytes, first :: body⟩ := by
  obtain ⟨rest, others, same⟩ := mem_text_mul.mp member
  obtain ⟨rfl, rfl⟩ := List.cons.inj same
  exact ⟨rfl, by simp [tilde, takeWhile_of_mem_kstar others]⟩

theorem tilde_of_mem_byte (member : first :: body ∈ language .byte) :
    first = '~' ∧ tilde body = ⟨.byte, first :: body⟩ := by
  obtain ⟨_, ⟨_, rfl, _, ⟨upper, isUpper, rfl⟩, rfl⟩, _, ⟨lower, isLower, rfl⟩, same⟩ := member
  obtain ⟨rfl, rfl⟩ := List.cons.inj same
  have single : upper ≠ '~' := ne_of_apply_ne isHexDigit (by rw [isUpper]; decide)
  exact ⟨rfl, by simp [tilde, single, isUpper, isLower]⟩

theorem mem_language_of_mem_symbols {word : Text} (listed : (kind, word) ∈ symbols) :
    word ∈ kind.language := by
  cases kind
  case whitespace | comment | ident | int | float | string | bytes | byte =>
    simp [symbols] at listed
  all_goals exact listed

theorem symbol?_mem {token : Token} (found : symbol? first rest = some token) :
    (token.kind, token.text) ∈ symbols := by
  have one {kind : TokenKind} (taken : some (⟨kind, [first]⟩ : Token) = some token)
      (listed : (kind, [first]) ∈ symbols) : (token.kind, token.text) ∈ symbols := by
    rw [← Option.some.inj taken]
    exact listed
  have two {second : Char} {kind : TokenKind} {otherwise : Option Token}
      (taken : (if rest.head? = some second then some ⟨kind, [first, second]⟩ else otherwise)
        = some token)
      (listed : (kind, [first, second]) ∈ symbols)
      (others : otherwise = some token → (token.kind, token.text) ∈ symbols) :
      (token.kind, token.text) ∈ symbols := by
    split at taken
    · rw [← Option.some.inj taken]
      exact listed
    · exact others taken
  unfold symbol? at found
  split at found
  -- The alternatives are the numbers of spellings that are tried for one first character.
  all_goals first
    | exact one found (by decide)
    | exact two found (by decide) fun found => one found (by decide)
    | exact two found (by decide) fun found => two found (by decide) fun found =>
        one found (by decide)
    | exact two found (by decide) fun found => two found (by decide) fun found =>
        two found (by decide) fun found => one found (by decide)
    | exact two found (by decide) fun found => nomatch found
    | exact nomatch found

/-- Every symbol is read as one token of its kind. -/
theorem token_of_mem_symbols (listed : (kind, first :: body) ∈ symbols) :
    token first body = ⟨kind, first :: body⟩ := by
  have all : ∀ entry ∈ symbols, tokenize entry.2 = [⟨entry.1, entry.2⟩] := by decide
  obtain ⟨char, more, rest, split, spelled, read, -⟩ := tokenize_eq_cons (all _ listed)
  obtain ⟨rfl, rfl⟩ := List.cons.inj split
  obtain ⟨-, same⟩ := List.cons.inj spelled
  rw [read]

theorem identifier_belongs_letter (letter : isLetter first = true) (rest : Text) :
    Belongs (identifier first rest) :=
  fun _ => cons_mem_ident.mpr (.inl ⟨letter, identifierRest_mem rest⟩)

theorem identifier_belongs_underscore (word : rest.head?.any isWord = true) :
    Belongs (identifier '_' rest) := by
  intro _
  refine cons_mem_ident.mpr (.inr ⟨rfl, ?_⟩)
  cases rest with
  | nil => simp at word
  | cons char rest =>
      have accepted : isWord char = true := word
      rw [identifierRest_word accepted]
      exact cons_mem_one_mul.mpr ⟨accepted, identifierRest_mem rest⟩

/-- The first token of a text belongs to its kind. -/
theorem token_belongs (first : Char) (rest : Text) : Belongs (token first rest) := by
  unfold token
  split
  · rename_i blank
    exact fun _ => cons_mem_one_mul.mpr ⟨blank, takeWhile_mem_kstar isSpace rest⟩
  split
  · rename_i dashes
    intro _
    obtain ⟨dash, next⟩ := Bool.and_eq_true_iff.mp dashes
    obtain ⟨body, rfl⟩ := List.head?_eq_some_iff.mp (eq_of_beq next)
    rw [eq_of_beq dash]
    exact mem_text_mul.mpr ⟨_, takeWhile_mem_kstar (· != '\n') body, rfl⟩
  split
  · rename_i letter
    exact identifier_belongs_letter letter rest
  split
  · rename_i underscore
    rw [eq_of_beq underscore]
    split
    · rename_i word
      exact identifier_belongs_underscore word
    · exact fun _ => mem_language_of_mem_symbols (by decide)
  split
  · rename_i digit
    exact number_belongs digit rest
  split
  · rename_i quote
    rw [eq_of_beq quote]
    intro proper
    have closed : (stringBody rest).1 = true := by simpa using proper
    simp only [closed, if_true]
    show _ ∈ ({['"']} * quotable * {['"']} : Language Char)
    rw [mul_assoc]
    exact mem_text_mul.mpr ⟨_, stringBody_mem closed, rfl⟩
  split
  · exact tilde_belongs rest
  · intro proper
    cases found : symbol? first rest with
    | none => simp [found] at proper
    | some token => exact mem_language_of_mem_symbols (symbol?_mem found)

theorem visible_of_accepted (accepts : Char → Bool) (accepted : accepts first = true)
    (refused : [' ', '\t', '\r', '\n'].all (! accepts ·) = true) : isSpace first = false := by
  refine Bool.eq_false_iff.mpr fun blank => ?_
  rw [refused_of_isSpace accepts blank refused] at accepted
  contradiction

theorem token_of_isLetter (letter : isLetter first = true) (rest : Text) :
    token first rest = identifier first rest := by
  have visible : isSpace first = false := visible_of_accepted isLetter letter (by decide)
  have dash : first ≠ '-' := ne_of_apply_ne isLetter (by rw [letter]; decide)
  simp [token, visible, dash, letter]

theorem token_of_isDigit (digit : isDigit first = true) (rest : Text) :
    token first rest = number first rest := by
  have visible : isSpace first = false := visible_of_accepted isDigit digit (by decide)
  have dash : first ≠ '-' := ne_of_apply_ne isDigit (by rw [digit]; decide)
  have underscore : first ≠ '_' := ne_of_apply_ne isDigit (by rw [digit]; decide)
  simp [token, visible, dash, isLetter_of_isDigit digit, underscore, digit]

theorem token_quote (rest : Text) : token '"' rest =
    ⟨if (stringBody rest).1 then .string else .error, '"' :: (stringBody rest).2⟩ := by
  simp [token, isSpace, isLetter, isDigit]

theorem token_tilde (rest : Text) : token '~' rest = tilde rest := by
  simp [token, isSpace, isLetter, isDigit]

/-- A text that belongs to a kind is one token of that kind. -/
theorem token_of_mem (member : first :: body ∈ kind.language) :
    token first body = ⟨kind, first :: body⟩ := by
  cases kind with
  | whitespace =>
      obtain ⟨blank, others⟩ := cons_mem_one_mul.mp member
      simp [token, blank, takeWhile_of_mem_kstar others]
  | comment =>
      obtain ⟨rest, others, same⟩ := mem_text_mul.mp member
      obtain ⟨rfl, rfl⟩ := List.cons.inj same
      simp [token, isSpace, takeWhile_of_mem_kstar others]
  | ident =>
      obtain ⟨letter, others⟩ | ⟨rfl, others⟩ := cons_mem_ident.mp member
      · rw [token_of_isLetter letter, identifier, identifierRest_of_mem others]
      · obtain ⟨char, rest, word, more, rfl⟩ := mem_one_mul.mp others
        have whole := identifierRest_of_mem (cons_mem_continuations word more)
        simp [token, isSpace, isLetter, word, identifier, whole]
  | int =>
      obtain ⟨digit, read⟩ := number_of_mem_int member
      rw [token_of_isDigit digit, read]
  | float =>
      obtain ⟨digit, read⟩ := number_of_mem_float member
      rw [token_of_isDigit digit, read]
  | string =>
      have split : language .string = {['"']} * closings := mul_assoc _ _ _
      obtain ⟨rest, closes, same⟩ := mem_text_mul.mp (split ▸ member)
      obtain ⟨rfl, rfl⟩ := List.cons.inj same
      rw [token_quote, stringBody_of_mem closes]
      rfl
  | bytes =>
      obtain ⟨rfl, read⟩ := tilde_of_mem_bytes member
      rw [token_tilde, read]
  | byte =>
      obtain ⟨rfl, read⟩ := tilde_of_mem_byte member
      rw [token_tilde, read]
  | _ => exact token_of_mem_symbols member

end Lexer

end Scrapscript
