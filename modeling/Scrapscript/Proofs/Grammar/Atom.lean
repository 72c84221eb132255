import Scrapscript.Proofs.Grammar.Expression

/-!
The smallest expressions keep to the table: names, literals, tags, parentheses, lists, records and
pattern matches.
-/

namespace Scrapscript.Grammar

open Scrapscript.Phrase Scrapscript.Rule
open Scrapscript.Tree (withoutTrivia isError isToken isTokenOf isNodeOf)

variable {below : Level} {cursor : Cursor}

theorem name_yields (seen : cursor.sees .ident = true) :
    name.Yields cursor fun row _ => fills [isNodeOf (· == .identifier)] row = true := by
  have inside : take.Yields cursor.settled fun row _ => fills [isToken .ident] row = true :=
    yields_token seen (by decide)
  have settledSeen : cursor.settled.sees .ident = true := seen
  exact yields_enclosed inside (length_take_lt settledSeen) (by decide)
    fun row rest filled => filled

theorem name_rest (seen : cursor.sees .ident = true) : (name cursor).rest = cursor.advanced := by
  have settledSeen : cursor.settled.sees .ident = true := seen
  simp [name, enclose, take_rest settledSeen]

/-- A name, or an error where it should be. -/
theorem yields_nameOr {fault : SyntaxFault} {phrase : Phrase} (condition : Bool)
    (seen : condition = true → cursor.sees .ident = true)
    (same : phrase cursor = if condition then name cursor else missing fault cursor) :
    phrase.Yields cursor
      fun row _ => fills [nodeOf isError (· == .identifier)] row = true := by
  cases holds : condition with
  | true =>
      apply ((name_yields (seen holds)).mono ?_).of_eq (by simp [same, holds])
      exact fun row rest => fills_mono (nodeOf_of_kind (by simp)) (fun _ empty => empty) row
  | false =>
      apply ((yields_missing fault).mono ?_).of_eq (by simp [same, holds])
      intro row rest yielded
      obtain ⟨node, rfl, error⟩ := yielded
      simp [fills, nodeOf, error]

theorem tagName_yields (cursor : Cursor) :
    tagName.Yields cursor fun row _ => fills [nodeOf isError (· == .identifier)] row = true :=
  yields_nameOr (cursor.sees .ident && !cursor.afterLineBreak) (by simp +contextual) rfl

theorem fieldName_yields (cursor : Cursor) :
    fieldName.Yields cursor fun row _ => fills [nodeOf isError (· == .identifier)] row = true :=
  yields_nameOr (cursor.sees .ident) id rfl

theorem spread_yields (sound : below.Sound) (seen : cursor.sees .dotDot = true) :
    (spread below).Yields cursor fun row _ => fills [isNodeOf (· == .spread)] row = true := by
  have operand : (when (·.seesExpression) (allow (below.binary 0))).Yields cursor.settled.advanced
      fun row _ => row = [] ∨ fills [nodeOf isError NodeKind.isBinary] row = true := by
    refine yields_when (fun seen => ?_) (fun _ => .inl rfl)
    apply ((sound.operand 0).allowed seen).mono
    intro row rest yielded
    obtain ⟨node, rfl, leveled, -⟩ := yielded
    exact .inr (by simp [fills, nodeOf_isError (.inr leveled)])
  have settledSeen : cursor.settled.sees .dotDot = true := seen
  apply yields_enclosed (yields_takeThen settledSeen (by decide) operand.only)
    (length_takeThen_lt settledSeen operand.only) (by decide)
  intro row rest yielded
  rcases yielded with ⟨leaf, after, rfl, isToken, rfl | filled⟩
  · simp [allows, fills, isToken]
  · simp [allows, fills, isToken, filled]

theorem separator_yields (closer : TokenKind) (cursor : Cursor) :
    (separator closer).Yields cursor fun row _ => ∀ tree ∈ row, isError tree = true := by
  refine yields_when (fun _ => ?_) (fun _ => by simp)
  apply (yields_missing .missingComma).mono
  intro row rest yielded
  obtain ⟨node, rfl, error⟩ := yielded
  simpa using error

/-- An item and the separator after it. -/
theorem yields_separated {phrase : Phrase} {place : Tree → Bool} {level : NodeKind → Bool}
    (closer : TokenKind)
    (yields : phrase.Yields cursor fun row _ => fills [place] row = true)
    (fits : ∀ tree, place tree = true → nodeOf isError level tree = true) :
    (sequence [phrase, separator closer]).Yields cursor
      fun row _ => ∀ tree ∈ row, orComma (nodeOf isError level) tree = true := by
  apply (yields.followedBy (separator_yields closer _).only).mono
  intro row rest yielded tree membership
  obtain ⟨before, middle, after, rfl, filled, errors⟩ := yielded
  rcases List.mem_append.mp membership with inBefore | inAfter
  · simp [orComma, fits tree (all_of_fills filled tree inBefore)]
  · simp [orComma, nodeOf, errors tree inAfter]

theorem yields_comma {place : Tree → Bool} (seen : cursor.sees .comma = true) :
    take.Yields cursor fun row _ => ∀ tree ∈ row, orComma place tree = true := by
  apply (yields_take seen (by decide)).mono
  intro row rest yielded
  obtain ⟨⟨leaf, rfl, isToken⟩, -⟩ := yielded
  simp [orComma, isToken]

theorem yields_rejected {level : NodeKind → Bool} (fault : SyntaxFault)
    (inside : cursor.atEnd = false) :
    (reject fault).Yields cursor
      fun row _ => ∀ tree ∈ row, orComma (nodeOf isError level) tree = true := by
  apply (yields_reject fault inside).mono
  intro row rest yielded
  obtain ⟨node, rfl, error⟩ := yielded
  simp [orComma, nodeOf, error]

theorem seesMore_atEnd (more : seesMore cursor = true) : cursor.atEnd = false := by
  cases ended : cursor.atEnd with
  | false => rfl
  | true => simp [seesMore, ended] at more

theorem listItem_yields (sound : below.Sound) (more : seesMore cursor = true) :
    (listItem below).Yields cursor
      fun row _ => ∀ tree ∈ row, orComma (nodeOf isError NodeKind.isElement) tree = true := by
  by_cases comma : cursor.sees .comma = true
  · exact (yields_comma comma).of_eq (by simp [listItem, comma])
  by_cases dots : cursor.sees .dotDot = true
  · refine (yields_separated .closeBracket (spread_yields sound dots) ?_).of_eq
      (by simp [listItem, comma, dots])
    exact nodeOf_of_kind rfl
  by_cases seen : cursor.seesExpression = true
  · have element : (allow (ascription below)).Yields cursor
        fun row _ => fills [nodeOf isError NodeKind.isAscribed] row = true := by
      apply ((ascription_builds sound).allowed seen).mono
      intro row rest yielded
      obtain ⟨node, rfl, leveled, -⟩ := yielded
      simp [fills, nodeOf_isError (.inr leveled)]
    refine (yields_separated .closeBracket element ?_).of_eq
      (by simp [listItem, comma, dots, seen])
    exact nodeOf_mono fun kind ascribed => by simp [NodeKind.isElement, ascribed]
  · exact (yields_rejected .unexpectedInList (seesMore_atEnd more)).of_eq
      (by simp [listItem, comma, dots, seen])

theorem recordField_yields (sound : below.Sound) (seen : cursor.sees .ident = true) :
    (recordField below).Yields cursor
      fun row _ => fills [isNodeOf (· == .recordField)] row = true := by
  have value (cursor : Cursor) : (when (·.sees .equals)
      (sequence [take, require (ascription below) .missingFieldValue])).Yields cursor
        fun row _ => row = [] ∨
          fills [isToken .equals, nodeOf isError NodeKind.isAscribed] row = true := by
    refine yields_when (fun seen => ?_) (fun _ => .inl rfl)
    apply (yields_tokenThen seen (by decide)
      (yields_required (ascription_builds sound) _ _)).mono
    exact fun row rest filled => .inr filled
  have settledSeen : cursor.settled.sees .ident = true := seen
  have named : (name cursor.settled).rest.words.length < cursor.words.length := by
    rw [name_rest settledSeen]
    exact Cursor.length_advanced_lt (Cursor.words_ne_nil_of_sees settledSeen)
  apply yields_enclosed ((name_yields settledSeen).followedBy (value _).only)
    (Nat.lt_of_le_of_lt (value _).only.placed.length_words_le named) (by decide)
  intro row rest yielded
  rcases yielded with ⟨before, middle, after, rfl, named, rfl | filled⟩
  · simp [allows, named]
  · simp only [allows, Bool.or_eq_true]
    exact .inr (fills_append named filled)

theorem recordItem_yields (sound : below.Sound) (more : seesMore cursor = true) :
    (recordItem below).Yields cursor
      fun row _ => ∀ tree ∈ row, orComma (nodeOf isError NodeKind.isEntry) tree = true := by
  by_cases comma : cursor.sees .comma = true
  · exact (yields_comma comma).of_eq (by simp [recordItem, comma])
  by_cases dots : cursor.sees .dotDot = true
  · refine (yields_separated .closeBrace (spread_yields sound dots) ?_).of_eq
      (by simp [recordItem, comma, dots])
    exact nodeOf_of_kind rfl
  by_cases seen : cursor.sees .ident = true
  · refine (yields_separated .closeBrace (recordField_yields sound seen) ?_).of_eq
      (by simp [recordItem, comma, dots, seen])
    exact nodeOf_of_kind rfl
  · exact (yields_rejected .unexpectedInRecord (seesMore_atEnd more)).of_eq
      (by simp [recordItem, comma, dots, seen])

/-- An opener, items as long as there are more, and a closer. -/
theorem collection_yields {opener closer : TokenKind} {item : Phrase} {place : Tree → Bool}
    (fault : SyntaxFault) (seen : cursor.sees opener = true)
    (proper : opener ≠ .error ∧ closer ≠ .error)
    (items : ∀ cursor, seesMore cursor = true →
      item.Yields cursor fun row _ => ∀ tree ∈ row, place tree = true) :
    (sequence [take, many seesMore item, expect closer fault]).Yields cursor
      fun row _ => collects (isToken opener) place (orGap isError (isToken closer)) row = true := by
  have rounds : (many seesMore item).Yields cursor.advanced
      fun row _ => ∀ tree ∈ row, place tree = true := yields_many items
  have rest := rounds.followedBy (yields_expect closer fault proper.2).only
  apply (yields_takeThen seen proper.1 rest).mono
  intro row rest yielded
  obtain ⟨leaf, after, rfl, isToken, collected⟩ := yielded
  obtain ⟨before, middle, ending, rfl, placed, last, rfl, closed⟩ := collected
  simpa [collects, orGap, isToken, List.all_eq_true, closed] using placed

theorem guard_yields (sound : below.Sound) (seen : cursor.sees .question = true) :
    (guard below).Yields cursor fun row _ => fills [isNodeOf (· == .guard)] row = true := by
  have settledSeen : cursor.settled.sees .question = true := seen
  have condition := yields_required (sound.operand 0) .missingCondition cursor.settled.advanced
  exact yields_enclosed (yields_tokenThen settledSeen (by decide) condition)
    (length_takeThen_lt settledSeen condition) (by decide) fun row rest filled => filled

theorem caseBody_yields (sound : below.Sound) (cursor : Cursor) :
    (caseBody below).Yields cursor
      fun row _ => ∃ ending ∈ caseEnds isError, fills ending row = true := by
  by_cases seen : cursor.sees .arrow = true
  · apply ((yields_tokenThen seen (by decide) (yields_required sound.function _ _)).mono ?_).of_eq
      (by simp only [caseBody, seen, if_true]; rfl)
    exact fun row rest filled => ⟨_, by simp [caseEnds], filled⟩
  · apply ((yields_missing .missingArrow).mono ?_).of_eq (by simp [caseBody, seen])
    intro row rest yielded
    obtain ⟨node, rfl, error⟩ := yielded
    exact ⟨[isError], by simp [caseEnds], by simp [fills, error]⟩

/-- The pattern, the guard if there is one, and the body of a pattern case. -/
theorem caseParts_yields (sound : below.Sound) (cursor : Cursor) :
    (sequence [require (below.binary 0) .missingPattern, when (·.sees .question) (guard below),
      caseBody below]).Yields cursor fun row _ =>
        ∃ pattern guards body, row = pattern ++ (guards ++ body) ∧
          fills [nodeOf isError NodeKind.isBinary] pattern = true ∧
          (guards = [] ∨ fills [isNodeOf (· == .guard)] guards = true) ∧
          ∃ ending ∈ caseEnds isError, fills ending body = true := by
  have guards (cursor : Cursor) : (when (·.sees .question) (guard below)).Yields cursor
      fun row _ => row = [] ∨ fills [isNodeOf (· == .guard)] row = true := by
    refine yields_when (fun seen => ?_) (fun _ => .inl rfl)
    exact (guard_yields sound seen).mono fun row rest filled => .inr filled
  have pattern := (sound.operand 0).required .missingPattern cursor
  apply (pattern.followedBy ((guards _).followedBy (caseBody_yields sound _).only)).mono
  intro row rest yielded
  obtain ⟨before, _, after, rfl, ⟨node, rfl, leveled⟩, remainder⟩ := yielded
  obtain ⟨guards, _, body, rfl, guarded, ending⟩ := remainder
  exact ⟨[node], guards, body, rfl, by simp [fills, nodeOf_isError leveled], guarded, ending⟩

theorem length_patternCase_lt (sound : below.Sound) (seen : cursor.sees .pipe = true) :
    (patternCase below cursor).rest.words.length < cursor.words.length := by
  have settledSeen : cursor.settled.sees .pipe = true := seen
  exact length_takeThen_lt settledSeen (caseParts_yields sound _)

theorem patternCase_yields (sound : below.Sound) (seen : cursor.sees .pipe = true) :
    (patternCase below).Yields cursor
      fun row _ => fills [isNodeOf (· == .patternCase)] row = true := by
  have settledSeen : cursor.settled.sees .pipe = true := seen
  apply yields_enclosed (yields_takeThen settledSeen (by decide) (caseParts_yields sound _))
    (length_patternCase_lt sound seen) (by decide)
  intro row rest yielded
  obtain ⟨leaf, _, rfl, bar, pattern, guards, body, rfl, parts⟩ := yielded
  obtain ⟨patternFilled, guarded, ending, allowedEnding, bodyFilled⟩ := parts
  have opened : fills [isToken .pipe] [leaf] = true := by simp [fills, bar]
  simp only [allows, List.any_eq_true, Bool.or_eq_true]
  refine ⟨ending, allowedEnding, ?_⟩
  rcases guarded with rfl | guardFilled
  · exact .inl (fills_append opened (fills_append patternFilled bodyFilled))
  · exact .inr (fills_append opened (fills_append patternFilled
      (fills_append guardFilled bodyFilled)))

theorem patternMatch_yields (sound : below.Sound) (seen : cursor.sees .pipe = true) :
    (many (·.sees .pipe) (patternCase below)).Yields cursor
      fun row _ => allows isError .patternMatch row = true := by
  rcases Cursor.sees_iff.mp seen with ⟨word, more, next, -⟩
  have others (cursor : Cursor) : (repeated (·.sees .pipe) (patternCase below) more).Yields cursor
      fun row _ => ∀ tree ∈ row, tree.isNodeOf (· == .patternCase) = true := by
    refine yields_repeated (fun cursor seen => ?_) more cursor
    apply (patternCase_yields sound seen).mono
    intro row rest filled
    exact all_of_fills filled
  apply (((patternCase_yields sound seen).followedBy (others _).only).mono ?_).of_eq
    (many_eq next seen)
  intro row rest yielded
  obtain ⟨before, middle, after, rfl, filled, cases⟩ := yielded
  have first := all_of_fills filled
  cases before with
  | nil => simp [fills] at filled
  | cons tree before =>
      have nonempty : (tree :: before ++ after).isEmpty = false := rfl
      simp only [allows, nonempty, Bool.not_false, Bool.true_and, List.all_eq_true,
        List.mem_append]
      intro tree membership
      rcases membership with inBefore | inAfter
      · exact first tree inBefore
      · exact cases tree inAfter

theorem atom_meets {kind : NodeKind} {phrase : Phrase}
    (seen : cursor.seesExpression = true) (atomic : kind.isAtom = true)
    (yields : phrase.Yields cursor.settled fun row _ => allows isError kind row = true)
    (progress : (phrase cursor.settled).rest.words.length < cursor.words.length) :
    (build kind phrase cursor).Meets cursor (Leveled NodeKind.isAtom) := by
  have plain : kind.isPlain = true := by
    cases kind <;> first | rfl | exact absurd atomic Bool.false_ne_true
  exact build_meets seen (NodeKind.ne_error_of_isPlain plain) yields progress
    (fun row rest allowed => .of_allowed plain allowed) (fun children rest => atomic)

theorem leafAtom_meets {kind : NodeKind} {token : TokenKind} (starts : token.startsArgument = true)
    (next : cursor.kind? = some token) (atomic : kind.isAtom = true)
    (allowed : ∀ row, fills [isToken token] row = true → allows isError kind row = true) :
    (build kind take cursor).Meets cursor (Leveled NodeKind.isAtom) := by
  have proper : token ≠ .error := by
    intro error
    simp [error, TokenKind.startsArgument] at starts
  have seen : cursor.settled.sees token = true := by
    simpa [Cursor.sees] using next
  have argument : cursor.seesExpression = true := by
    simp [Cursor.seesExpression, Cursor.seesArgument, next, starts]
  apply atom_meets argument atomic
  · exact (yields_token seen proper).mono fun row rest filled => allowed row filled
  · rw [take_rest seen, Cursor.settled_advanced]
    exact Cursor.length_advanced_lt (Cursor.words_ne_nil_of_sees seen)

/-- A phrase that starts with a token, at a cursor where an expression starts. -/
theorem tokenAtom_meets {kind : NodeKind} {token : TokenKind} {phrases : List Phrase}
    {second : List Tree → Cursor → Prop}
    (seen : cursor.seesExpression = true) (next : cursor.kind? = some token)
    (proper : token ≠ .error) (atomic : kind.isAtom = true)
    (others : (sequence phrases).Yields cursor.advanced second)
    (allowed : ∀ leaf row rest, leaf.isToken token = true → second row rest →
      allows isError kind (leaf :: row) = true) :
    (build kind (sequence (take :: phrases)) cursor).Meets cursor (Leveled NodeKind.isAtom) := by
  have settledSeen : cursor.settled.sees token = true := by
    simpa [Cursor.sees] using next
  rw [← Cursor.settled_advanced] at others
  apply atom_meets seen atomic
  · apply (yields_takeThen settledSeen proper others).mono
    intro row rest yielded
    obtain ⟨leaf, after, rfl, isToken, holds⟩ := yielded
    exact allowed leaf after rest isToken holds
  · exact length_takeThen_lt settledSeen others

/-- The sign and the digits of a negative number. -/
theorem negative_meets (negative : cursor.seesNegative = true) :
    (build .number (sequence [take, take]) cursor).Meets cursor (Leveled NodeKind.isAtom) := by
  have seen : cursor.seesExpression = true := by simp [Cursor.seesExpression, negative]
  simp only [Cursor.seesNegative, Bool.and_eq_true, Option.any_eq_true] at negative
  obtain ⟨minus, digits, following, isNumber⟩ := negative
  have minusNext : cursor.kind? = some .minus := eq_of_beq minus
  have digitsSeen : cursor.advanced.sees digits = true := by
    rw [← Cursor.advanced_kind?] at following
    exact Cursor.sees_of_kind? following
  have proper : digits ≠ .error := by
    intro error
    simp [error, TokenKind.isNumber] at isNumber
  refine tokenAtom_meets seen minusNext (by decide) rfl (yields_token digitsSeen proper).only ?_
  intro leaf row rest isMinus filled
  have number : fills [isTokenOf TokenKind.isNumber] row = true := by
    refine fills_mono (fun tree isDigits => ?_) (fun _ empty => empty) row filled
    exact Tree.isTokenOf_of_isToken isNumber isDigits
  simp [allows, fills, isMinus, number]

theorem hole_meets (next : cursor.kind? = some .openParen)
    (following : cursor.following? = some .closeParen) :
    (build .hole (sequence [take, take]) cursor).Meets cursor (Leveled NodeKind.isAtom) := by
  have closeSeen : cursor.advanced.sees .closeParen = true := by
    rw [← Cursor.advanced_kind?] at following
    exact Cursor.sees_of_kind? following
  refine tokenAtom_meets (Cursor.seesExpression_of_starts next rfl) next (by decide) rfl
    (yields_token closeSeen (by decide)).only ?_
  intro leaf row rest isOpen filled
  simp [allows, fills, isOpen, filled]

theorem parenthesized_meets (sound : below.Sound) (next : cursor.kind? = some .openParen) :
    (build .parenthesized (sequence [take, require (expression below) .missingExpression,
      expect .closeParen (.missingCloser .closeParen)]) cursor).Meets cursor
        (Leveled NodeKind.isAtom) := by
  have inside := ((expression_builds sound).required .missingExpression cursor.advanced).followedBy
    (yields_expect .closeParen (.missingCloser .closeParen) (by decide)).only
  refine tokenAtom_meets (Cursor.seesExpression_of_starts next rfl) next (by decide) rfl inside ?_
  intro leaf row rest isOpen yielded
  obtain ⟨before, middle, after, rfl, ⟨node, rfl, leveled⟩, last, rfl, closed⟩ := yielded
  simp [allows, fills, isOpen, nodeOf_isError leveled, orGap, closed]

theorem tag_meets (next : cursor.kind? = some .hash) :
    (build .tag (sequence [take, tagName]) cursor).Meets cursor (Leveled NodeKind.isAtom) := by
  refine tokenAtom_meets (Cursor.seesExpression_of_starts next rfl) next (by decide) rfl
    (tagName_yields _).only ?_
  intro leaf row rest isHash filled
  simp [allows, fills, isHash, filled]

/-- A list or a record. -/
theorem collection_meets {kind : NodeKind} {opener closer : TokenKind} {item : Phrase}
    {place : Tree → Bool} (fault : SyntaxFault) (next : cursor.kind? = some opener)
    (starts : opener.startsArgument = true) (proper : opener ≠ .error ∧ closer ≠ .error)
    (atomic : kind.isAtom = true)
    (items : ∀ cursor, seesMore cursor = true →
      item.Yields cursor fun row _ => ∀ tree ∈ row, place tree = true)
    (allowed : ∀ row, collects (isToken opener) place (orGap isError (isToken closer)) row = true →
      allows isError kind row = true) :
    (build kind (sequence [take, many seesMore item, expect closer fault]) cursor).Meets cursor
      (Leveled NodeKind.isAtom) := by
  have seen : cursor.settled.sees opener = true := Cursor.sees_of_kind? next
  apply atom_meets (Cursor.seesExpression_of_starts next starts) atomic
  · exact (collection_yields fault seen proper items).mono fun row rest => allowed row
  · exact length_takeThen_lt seen
      ((yields_many items).followedBy (yields_expect closer fault proper.2).only)

theorem patternMatch_meets (sound : below.Sound) (next : cursor.kind? = some .pipe) :
    (build .patternMatch (many (·.sees .pipe) (patternCase below)) cursor).Meets cursor
      (Leveled NodeKind.isAtom) := by
  have seen : cursor.settled.sees .pipe = true := Cursor.sees_of_kind? next
  have yields := patternMatch_yields sound seen
  apply atom_meets (by simp [Cursor.seesExpression, Cursor.sees_of_kind? next]) rfl yields
  rcases Cursor.sees_iff.mp seen with ⟨word, more, words, -⟩
  have others : Placed (patternCase below cursor.settled).rest
      (repeated (·.sees .pipe) (patternCase below) more
        (patternCase below cursor.settled).rest).trees
      (repeated (·.sees .pipe) (patternCase below) more
        (patternCase below cursor.settled).rest).rest :=
    repeated_placed (fun cursor seen => (patternCase_yields sound seen).placed) more _
  rw [many_eq words seen]
  simp only [Phrase.sequence]
  exact Nat.lt_of_le_of_lt others.length_words_le (length_patternCase_lt sound seen)

theorem atom_builds (sound : below.Sound) : (atom below).Builds (Leveled NodeKind.isAtom) := by
  intro cursor
  cases next : cursor.kind? with
  | none =>
      simp only [atom, next]
      exact nothing_meets (by simp [Cursor.seesExpression, Cursor.seesArgument,
        Cursor.seesNegative, Cursor.sees, next])
  | some token =>
      cases token <;> simp only [atom, next]
      case ident | underscore | string =>
        exact leafAtom_meets rfl next rfl fun row filled => filled
      case int | float =>
        refine leafAtom_meets rfl next rfl fun row filled => ?_
        have number : fills [isTokenOf TokenKind.isNumber] row = true :=
          fills_mono (fun tree => Tree.isTokenOf_of_isToken rfl) (fun _ empty => empty) row filled
        simp only [allows, Bool.or_eq_true]
        exact .inl number
      case bytes | byte =>
        refine leafAtom_meets rfl next rfl fun row filled => ?_
        exact fills_mono (fun tree => Tree.isTokenOf_of_isToken rfl) (fun _ empty => empty) row
          filled
      case minus =>
        by_cases negative : cursor.seesNegative = true
        · simp only [negative, if_true]
          exact negative_meets negative
        · simp only [negative]
          exact nothing_meets (by simp [Cursor.seesExpression, Cursor.seesArgument,
            TokenKind.startsArgument, Cursor.sees, next, negative])
      case hash => exact tag_meets next
      case openParen =>
        by_cases closed : cursor.following? = some .closeParen
        · simp only [closed, beq_self_eq_true, if_true]
          exact hole_meets next closed
        · simp only [beq_iff_eq, closed, if_false]
          exact parenthesized_meets sound next
      case openBracket =>
        exact collection_meets _ next rfl (by decide) rfl (fun _ => listItem_yields sound)
          fun row collected => collected
      case openBrace =>
        exact collection_meets _ next rfl (by decide) rfl (fun _ => recordItem_yields sound)
          fun row collected => collected
      case pipe => exact patternMatch_meets sound next
      all_goals
        have unseen := Cursor.seesExpression_eq_false next rfl (by decide) (by decide)
        exact nothing_meets unseen

end Scrapscript.Grammar
