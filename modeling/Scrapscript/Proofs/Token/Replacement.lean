import Scrapscript.Proofs.Token.Ending

/-!
Spelling some identifiers of a text anew. The other tokens stay as they are, unless a new name
begins with a letter where the old one began with an underscore: then a literal of bytes before it
would go on into it, and so would an identifier that only a slash or a hyphen keeps apart from it.
-/

namespace Scrapscript

open Scrapscript.Lexer (isWord isLetter isDigit isBase64 isSpace token tokenize)

/-- Whether a token that begins with a letter is drawn into the ones right before it, given by their
kinds, the nearest first. -/
def TokenKind.drawsIn : List TokenKind → Bool
  | .bytes :: _ => true
  | .slash :: .ident :: _ | .minus :: .ident :: _ => true
  | _ => false

/-- Whether no marked token is right after others that draw it in. -/
def TokenKind.keepsApart : List TokenKind → List (TokenKind × Bool) → Bool
  | _, [] => true
  | before, (kind, marked) :: rest =>
      !(marked && drawsIn before) && keepsApart (kind :: before) rest

/-- A token or, if it is marked, an identifier in its place. -/
def Token.respelled (name : Text) (entry : Token × Bool) : Token :=
  if entry.2 then ⟨.ident, name⟩ else entry.1

namespace Lexer

open TokenKind

/-- A character that an identifier can begin with. -/
def beginsName (char : Char) : Bool :=
  isLetter char || char == '_'

variable {char other next : Char} {kind : TokenKind}

theorem beginsName_of_ident {rest : Text} (named : (token char rest).kind = .ident) :
    beginsName char = true := by
  obtain ⟨body, spelled, -⟩ := token_spells char rest
  have member := token_belongs char rest (by simp [named])
  rw [named, spelled, cons_mem_ident] at member
  obtain ⟨letter, -⟩ | ⟨underscore, -⟩ := member
  · simp [beginsName, letter]
  · simp [beginsName, underscore]

theorem isDigit_of_beginsName (begins : beginsName char = true) : isDigit char = false := by
  cases digit : isDigit char with
  | false => rfl
  | true =>
      have letter := isLetter_of_isDigit digit
      obtain rfl : char = '_' := by simpa [beginsName, letter] using begins
      contradiction

theorem isBase64_of_beginsName (begins : beginsName char = true) :
    isBase64 char = isLetter char := by
  cases letter : isLetter char with
  | true => simp [isBase64, letter]
  | false =>
      obtain rfl : char = '_' := by simpa [beginsName, letter] using begins
      rfl

/-- What a name begins with is no part of a symbol. -/
theorem beq_of_beginsName {symbol : Char} (begins : beginsName char = true)
    (refused : beginsName symbol = false) : (char == symbol) = false := by
  rw [beq_eq_false_iff_ne]
  rintro rfl
  simp [begins] at refused

/-- Whatever a name begins with, the same tokens become longer before it, except for bytes. -/
theorem grows_of_beginsName (begins : beginsName char = true) :
    kind.grows char = (kind == .comment || kind == .ident || kind == .underscore ||
      kind == .bytes && isLetter char) := by
  have word : isWord char = true := by
    rw [beginsName] at begins
    grind [isWord]
  have digit := isDigit_of_beginsName begins
  have base64 := isBase64_of_beginsName begins
  cases kind
  case comment =>
    have visible : beginsName '\n' = false := rfl
    simpa [grows] using beq_of_beginsName begins visible
  case ident | underscore | bytes | int | float => simp [grows, word, digit, base64]
  case whitespace | dot | equals | minus | pipe | plus | less | greater =>
    simp (disch := decide) only [grows, isSpace, beq_of_beginsName begins]
    rfl
  all_goals rfl

theorem growsWith_of_beginsName (begins : beginsName char = true) :
    kind.growsWith char next = false := by
  cases kind
  case ident | int => simp (disch := decide) [growsWith, beq_of_beginsName begins]
  all_goals rfl

/-- A joint that a name follows makes an identifier longer, no other token. -/
theorem growsWith_before_beginsName (begins : beginsName next = true) :
    kind.growsWith char next =
      (kind == .ident && (char == '/' || char == '-') && isLetter next) := by
  cases kind
  case ident => simp [growsWith]
  case int => simp [growsWith, isDigit_of_beginsName begins]
  all_goals rfl

/-- What a chain of tokens begins with. -/
theorem Chained.begins {next : Token} {rest : List Token} (chained : Chained (next :: rest)) :
    ∃ first body, next.text = first :: body ∧ token first body = next := by
  obtain ⟨first, body, more, text, spelled, read, -⟩ := tokenize_eq_cons chained.1
  obtain rfl : more = [] := by simpa [spelled] using text
  exact ⟨first, body, spelled, by simpa using read⟩

theorem textOf_cons {next : Token} {first : Char} {body : Text}
    (spelled : next.text = first :: body) (rest : List Token) :
    Token.textOf (next :: rest) = first :: (body ++ Token.textOf rest) := by
  simp [Token.textOf, spelled]

section

variable {first : Char} {body : Text} {entries : List (Token × Bool)} {before : List TokenKind}

/-- The kinds of tokens, with their marks. -/
def looks (entries : List (Token × Bool)) : List (TokenKind × Bool) :=
  entries.map fun entry => (entry.1.kind, entry.2)

/-- A token that ends before a name ends before another one, unless it is of bytes. -/
theorem endsBefore_name {rest more : Text} (begins : beginsName char = true)
    (named : beginsName first = true) (apart : kind = .bytes → isLetter first = false)
    (ends : kind.endsBefore (char :: rest) = true) : kind.endsBefore (first :: more) = true := by
  have visible : kind.grows char = false := by simpa using head_of_endsBefore ends
  have same : kind.grows first = false := by
    rw [grows_of_beginsName begins] at visible
    rw [grows_of_beginsName named]
    grind
  exact endsBefore_cons same fun _ => growsWith_of_beginsName named

/-- A token that ends before a character with a name after it ends there before another name, unless
the character joins the name to an identifier. -/
theorem endsBefore_joint {rest more : Text} (begins : beginsName other = true)
    (named : beginsName first = true)
    (apart : kind = .ident → (char == '/' || char == '-') = true → isLetter first = false)
    (ends : kind.endsBefore (char :: other :: rest) = true) :
    kind.endsBefore (char :: first :: more) = true := by
  simp only [endsBefore, growsWith_before_beginsName begins] at ends
  simp only [endsBefore, growsWith_before_beginsName named]
  grind

/-- Where a token ended before, it ends before the tokens that are spelled anew. -/
theorem endsBefore_respelled (named : beginsName first = true)
    (marked : ∀ entry ∈ entries, entry.2 = true → entry.1.kind = .ident)
    (apart : isLetter first = true → keepsApart (kind :: before) (looks entries) = true)
    (chained : Chained (entries.map Prod.fst))
    (ends : kind.endsBefore (Token.textOf (entries.map Prod.fst)) = true) :
    kind.endsBefore (Token.textOf (entries.map (Token.respelled (first :: body)))) = true := by
  have begins {next : Token} {rest : List Token} (chained : Chained (next :: rest))
      (ident : next.kind = .ident) : ∃ char others, next.text = char :: others ∧
        beginsName char = true := by
    obtain ⟨char, others, spelled, read⟩ := chained.begins
    exact ⟨char, others, spelled, beginsName_of_ident ((congrArg Token.kind read).trans ident)⟩
  match entries with
  | [] => exact ends
  | (next, true) :: rest =>
      obtain ⟨char, others, spelled, begins⟩ := begins chained (marked _ (.head _) rfl)
      rw [List.map_cons, textOf_cons spelled] at ends
      rw [List.map_cons, textOf_cons (show (Token.respelled _ (next, true)).text = _ from rfl)]
      refine endsBefore_name begins named ?_ ends
      rintro rfl
      simpa [looks, keepsApart, drawsIn] using apart
  | (next, false) :: rest =>
      obtain ⟨char, others, spelled, read⟩ := chained.begins
      have still : (Token.respelled (first :: body) (next, false)).text = char :: others := spelled
      rw [List.map_cons, textOf_cons spelled] at ends
      rw [List.map_cons, textOf_cons still]
      -- Only if the token is a single character, what comes after it matters.
      match others, rest with
      | second :: others, rest => exact ends
      | [], [] => exact ends
      | [], (later, false) :: rest =>
          obtain ⟨second, others, spelled, -⟩ := chained.2.2.begins
          have still : (Token.respelled (first :: body) (later, false)).text = second :: others :=
            spelled
          rw [List.map_cons, textOf_cons spelled] at ends
          rw [List.map_cons, textOf_cons still]
          exact ends
      | [], (later, true) :: rest =>
          obtain ⟨second, others, spelled, begins⟩ :=
            begins chained.2.2 (marked _ (.tail _ (.head _)) rfl)
          rw [List.map_cons, textOf_cons spelled] at ends
          rw [List.map_cons, textOf_cons (show (Token.respelled _ (later, true)).text = _ from rfl)]
          refine endsBefore_joint begins named ?_ ends
          rintro rfl joins
          have drawn : drawsIn (next.kind :: .ident :: before) = true := by
            obtain rfl | rfl : char = '/' ∨ char = '-' := by simpa using joins
            · exact (show next = ⟨.slash, ['/']⟩ from read.symm) ▸ rfl
            · exact (show next = ⟨.minus, ['-']⟩ from read.symm) ▸ rfl
          simpa [looks, keepsApart, drawn] using apart

/-- Tokens that can stand one right after the other still can after some identifiers among them are
spelled anew. -/
theorem Chained.respelled (alone : Lexer.tokenize (first :: body) = [⟨.ident, first :: body⟩])
    (marked : ∀ entry ∈ entries, entry.2 = true → entry.1.kind = .ident)
    (apart : isLetter first = true → keepsApart before (looks entries) = true)
    (chained : Chained (entries.map Prod.fst)) :
    Chained (entries.map (Token.respelled (first :: body))) := by
  have named : beginsName first = true := by
    have chain : Chained [⟨.ident, first :: body⟩] := ⟨alone, rfl, trivial⟩
    obtain ⟨_, _, spelled, read⟩ := chain.begins
    obtain ⟨rfl, rfl⟩ := List.cons.inj spelled
    exact beginsName_of_ident (congrArg Token.kind read)
  induction entries generalizing before with
  | nil => trivial
  | cons entry rest inductionHypothesis =>
      obtain ⟨read, ends, others⟩ := chained
      obtain ⟨next, isMarked⟩ := entry
      have later : isLetter first = true → keepsApart (next.kind :: before) (looks rest) = true :=
        fun letter => (Bool.and_eq_true_iff.mp (apart letter)).2
      have markedRest := fun entry listed => marked entry (.tail _ listed)
      have kind : (Token.respelled (first :: body) (next, isMarked)).kind = next.kind := by
        cases isMarked with
        | false => rfl
        | true => exact (marked _ (.head _) rfl).symm
      refine ⟨?_, ?_, inductionHypothesis markedRest later others⟩
      · cases isMarked with
        | false => exact read
        | true => exact alone
      · rw [kind]
        exact endsBefore_respelled named markedRest later others ends

/-- The tokens of a text after some of its identifiers are spelled anew. -/
theorem tokenize_respelled {name : Text}
    (alone : ∃ next, tokenize name = [next] ∧ next.kind = .ident)
    (proper : ∀ entry ∈ entries, entry.1.kind ≠ .error)
    (marked : ∀ entry ∈ entries, entry.2 = true → entry.1.kind = .ident)
    (apart : name.head?.any isLetter = true → keepsApart [] (looks entries) = true)
    (read : tokenize (Token.textOf (entries.map Prod.fst)) = entries.map Prod.fst) :
    tokenize (Token.textOf (entries.map (Token.respelled name))) =
      entries.map (Token.respelled name) := by
  obtain ⟨next, single, ident⟩ := alone
  obtain ⟨first, body, more, rfl, spelled, -, others⟩ := tokenize_eq_cons single
  obtain rfl : more = [] := by rw [← textOf_tokenize more, others]; rfl
  rw [List.append_nil] at *
  have same : next = ⟨.ident, first :: body⟩ := by rw [← ident, ← spelled]
  have original : Chained (entries.map Prod.fst) :=
    .of_tokenize (List.forall_mem_map.mpr proper) read
  refine (Chained.respelled (same ▸ single) marked apart original).tokenize_textOf ?_
  rintro _ listed
  obtain ⟨⟨token, isMarked⟩, isEntry, rfl⟩ := List.mem_map.mp listed
  cases isMarked with
  | false => exact proper _ isEntry
  | true => exact nofun

end

end Lexer

end Scrapscript
