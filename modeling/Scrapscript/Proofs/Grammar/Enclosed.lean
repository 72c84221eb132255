import Scrapscript.Proofs.Grammar.Grip

/-!
The grammar reads what is enclosed: collections with their commas, pattern matches case by case, and
the other atoms. Their closers hold on to nothing before them.
-/

namespace Scrapscript

open Scrapscript.Tree (isToken isTokenOf isNodeOf)

namespace Grammar

open Scrapscript.Phrase Scrapscript.Rule

variable {below : Level} {cursor middle rest : Cursor} {tree : Tree}

section

variable {token : Token}

theorem name_reads (spans : cursor.Spans [token] rest) :
    name.Reads [.node .identifier [.leaf token]] cursor rest :=
  (reads_take spans.settled).enclose

theorem fieldName_reads (spans : cursor.Spans [token] rest) (ident : token.kind = .ident) :
    fieldName.Reads [.node .identifier [.leaf token]] cursor rest := by
  have seen := spans.sees ident
  simpa only [Phrase.Reads, fieldName, seen, if_true] using name_reads spans

theorem tagName_reads (spans : cursor.Spans [token] rest) (ident : token.kind = .ident) :
    tagName.Reads [.node .identifier [.leaf token]] cursor rest := by
  have seen := spans.sees ident
  simpa only [Phrase.Reads, tagName, seen, spans.flat, Bool.not_false, Bool.and_self, if_true] using
    name_reads spans

end

/-- Where an expression begins, no other token is seen. -/
theorem sees_eq_false_of_seesExpression (seen : cursor.seesExpression = true) {token : TokenKind}
    (starts : token.startsArgument = false) (bar : token ≠ .pipe) (sign : token ≠ .minus) :
    cursor.sees token = false := by
  refine Bool.eq_false_iff.mpr fun next => ?_
  rw [Cursor.seesExpression_eq_false (eq_of_beq next) starts bar sign] at seen
  contradiction

theorem seesMore_of_kind? {token : TokenKind} (next : cursor.kind? = some token)
    (paren : token ≠ .closeParen) (bracket : token ≠ .closeBracket) (brace : token ≠ .closeBrace)
    (semicolon : token ≠ .semicolon) : seesMore cursor = true := by
  have inside : cursor.atEnd = false := by
    cases words : cursor.words with
    | nil => simp [Cursor.kind?, words] at next
    | cons word more => simp [Cursor.atEnd, words]
  simp [seesMore, inside, Cursor.sees, next, paren, bracket, brace, semicolon]

theorem seesMore_of_seesExpression (seen : cursor.seesExpression = true) :
    seesMore cursor = true := by
  cases next : cursor.kind? with
  | none =>
      simp [Cursor.seesExpression, Cursor.seesArgument, Cursor.seesNegative, Cursor.sees,
        next] at seen
  | some token =>
      have unlike (other : TokenKind) (starts : other.startsArgument = false)
          (bar : other ≠ .pipe) (sign : other ≠ .minus) : token ≠ other := by
        rintro rfl
        rw [Cursor.seesExpression_eq_false next starts bar sign] at seen
        contradiction
      exact seesMore_of_kind? next (unlike _ rfl (by decide) (by decide))
        (unlike _ rfl (by decide) (by decide)) (unlike _ rfl (by decide) (by decide))
        (unlike _ rfl (by decide) (by decide))

/-- An item of a collection ends at a comma or at the closer. -/
def ItemEnds (closer : TokenKind) (rest : Cursor) : Prop :=
  rest.kind? = some .comma ∨ rest.kind? = some closer

section

variable {closer : TokenKind} (closes : closer = .closeBracket ∨ closer = .closeBrace)
  (ended : ItemEnds closer rest)

include closes ended

theorem seesExpression_itemEnds : rest.seesExpression = false := by
  rcases ended with comma | closed
  · exact Cursor.seesExpression_eq_false comma rfl (by decide) (by decide)
  · rcases closes with rfl | rfl <;>
      exact Cursor.seesExpression_eq_false closed rfl (by decide) (by decide)

theorem endsAt_itemEnds {bound : Nat} (positive : 0 < bound)
    (simple : tree.isNodeOf (· == .patternMatch) = false) : tree.EndsAt bound rest := by
  rcases ended with comma | closed
  · exact Tree.endsAt_of_kind? comma positive simple
  · apply Tree.endsAt_of_kind? closed _ simple
    rcases closes with rfl | rfl <;> exact positive

omit closes in
theorem separator_reads : (separator closer).Reads [] rest rest := by
  apply reads_skipped
  rcases ended with comma | closed
  · simp [Cursor.sees, comma]
  · simp [Cursor.sees, closed]

/-- A spread with its operand or without one. -/
theorem spread_reads (reads : below.Reads) (everywhere : tree.Everywhere Written)
    (isSpread : tree.isNodeOf (· == .spread) = true) (spans : cursor.Spans tree.tokens rest) :
    cursor.sees .dotDot = true ∧ (spread below).Reads [tree] cursor rest := by
  cases tree with
  | leaf token => contradiction
  | node kind row =>
      obtain rfl : kind = .spread := eq_of_beq isSpread
      have allowed := everywhere.1.allowed
      simp only [allows, Bool.or_eq_true] at allowed
      rcases allowed with lone | operand
      · obtain ⟨child, rfl, isToken⟩ := exists_of_fills_one lone
        obtain ⟨dots, rfl, same⟩ := exists_leaf_of_isToken isToken
        have spans : cursor.Spans [dots] rest := spans
        refine ⟨spans.sees same, Reads.enclose (reads_takeThen spans.settled ?_)⟩
        exact (reads_skipped (seesExpression_itemEnds closes ended)).only
      · obtain ⟨child, value, rfl, isToken, leveled⟩ := exists_of_fills_two operand
        obtain ⟨dots, rfl, same⟩ := exists_leaf_of_isToken isToken
        have binary := isNodeOf_of_nodeOf leveled
        have expressed := isExpression_of_isBinary binary
        have inside := everywhere.2.2.1
        refine ⟨spans.sees same, Reads.enclose ?_⟩
        obtain ⟨middle, before, after⟩ := spans_leaf spans
        have behind := spans_last after
        refine reads_takeThen before (Reads.only (reads_when
          (seesExpression_of_opens behind (opens_tokens value inside expressed)) ?_))
        exact reads_allow (reads.binary value 0 (by decide) inside binary (by simp) middle rest behind
          (endsAt_itemEnds closes ended (by decide)
            (simple_child everywhere.1 rfl (by simp))))

/-- One step through a collection: a comma, a spread, or an element where a condition holds. -/
theorem step_reads (condition : Cursor → Bool) {element : Phrase} {fault : SyntaxFault}
    (reads : below.Reads) (everywhere : tree.Everywhere Written)
    (spans : cursor.Spans tree.tokens rest)
    (shape : tree.isNodeOf (· == .spread) = true ∨
      seesMore cursor = true ∧ cursor.sees .comma = false ∧ cursor.sees .dotDot = false ∧
        condition cursor = true ∧ element.Reads [tree] cursor rest) :
    seesMore cursor = true ∧
      Phrase.Reads
        (fun cursor =>
          if cursor.sees .comma then take cursor
          else if cursor.sees .dotDot then sequence [spread below, separator closer] cursor
          else if condition cursor then sequence [element, separator closer] cursor
          else reject fault cursor) [tree] cursor rest := by
  have separated {phrase : Phrase} (item : phrase.Reads [tree] cursor rest) :
      (sequence [phrase, separator closer]).Reads [tree] cursor rest :=
    item.followedBy (separator_reads ended).only (separator_yields closer _).only.placed
  rcases shape with isSpread | ⟨more, comma, dots, holds, item⟩
  · obtain ⟨dots, item⟩ := spread_reads closes ended reads everywhere isSpread spans
    have next : cursor.kind? = some .dotDot := eq_of_beq dots
    have comma : cursor.sees .comma = false := by simp [Cursor.sees, next]
    refine ⟨seesMore_of_kind? next (by decide) (by decide) (by decide) (by decide), ?_⟩
    simpa only [Phrase.Reads, comma, dots, Bool.false_eq_true, if_true, if_false] using
      separated item
  · refine ⟨more, ?_⟩
    simpa only [Phrase.Reads, comma, dots, holds, Bool.false_eq_true, if_true, if_false] using
      separated item

end

theorem element_reads (reads : below.Reads) (everywhere : tree.Everywhere Written)
    (element : tree.isNodeOf NodeKind.isElement = true)
    (simple : tree.isNodeOf (· == .patternMatch) = false) (spans : cursor.Spans tree.tokens rest)
    (ended : ItemEnds .closeBracket rest) :
    seesMore cursor = true ∧ (listItem below).Reads [tree] cursor rest := by
  refine step_reads (.inl rfl) ended (·.seesExpression) reads everywhere spans ?_
  cases tree with
  | leaf token => contradiction
  | node kind row =>
      rcases (Bool.or_eq_true ..).mp element with ascribed | isSpread
      · right
        have seen := seesExpression_of_opens spans
          (opens_tokens _ everywhere (isExpression_of_isAscribed ascribed))
        refine ⟨seesMore_of_seesExpression seen,
          sees_eq_false_of_seesExpression seen rfl (by decide) (by decide),
          sees_eq_false_of_seesExpression seen rfl (by decide) (by decide), seen, ?_⟩
        exact reads_allow (ascription_reads reads everywhere ascribed cursor rest spans
          (endsAt_itemEnds (.inl rfl) ended (by decide) simple))
      · exact .inl isSpread

theorem recordField_reads (reads : below.Reads) (everywhere : tree.Everywhere Written)
    (isField : tree.isNodeOf (· == .recordField) = true) (spans : cursor.Spans tree.tokens rest)
    (ended : ItemEnds .closeBrace rest) :
    cursor.sees .ident = true ∧ (recordField below).Reads [tree] cursor rest := by
  have values := fieldValue_yields reads.sound
  cases tree with
  | leaf token => contradiction
  | node kind row =>
      obtain rfl : kind = .recordField := eq_of_beq isField
      have allowed := everywhere.1.allowed
      simp only [allows, Bool.or_eq_true] at allowed
      rcases allowed with lone | valued
      · obtain ⟨first, rfl, isName⟩ := exists_of_fills_one lone
        obtain ⟨token, rfl, ident⟩ := identifier_parts everywhere.2.1 isName
        have spans : cursor.Spans [token] rest := spans
        have unvalued : rest.sees .equals = false := by
          rcases ended with comma | closed
          · simp [Cursor.sees, comma]
          · simp [Cursor.sees, closed]
        refine ⟨spans.sees ident, Reads.enclose ?_⟩
        exact (name_reads spans.settled).followedBy (reads_skipped unvalued).only
          (values _).only.placed
      · obtain ⟨first, second, value, rfl, isName, isEquals, ascribed⟩ :=
          exists_of_fills_three valued
        obtain ⟨token, rfl, ident⟩ := identifier_parts everywhere.2.1 isName
        obtain ⟨equals, rfl, same⟩ := exists_leaf_of_isToken isEquals
        obtain ⟨middle, next, before, between, behind⟩ := spans_joined spans
        have before : cursor.Spans [token] middle := before
        have read := ascription_reads reads everywhere.2.2.2.1 (isNodeOf_of_nodeOf ascribed) next
          rest behind (endsAt_itemEnds (.inr rfl) ended (by decide)
            (simple_child everywhere.1 rfl (by simp)))
        refine ⟨before.sees ident, Reads.enclose ?_⟩
        exact (name_reads before.settled).followedBy
          (reads_when (between.sees same) (reads_takeThen between (reads_require read _).only)).only
          (values _).only.placed

theorem entry_reads (reads : below.Reads) (everywhere : tree.Everywhere Written)
    (entry : tree.isNodeOf NodeKind.isEntry = true) (spans : cursor.Spans tree.tokens rest)
    (ended : ItemEnds .closeBrace rest) :
    seesMore cursor = true ∧ (recordItem below).Reads [tree] cursor rest := by
  refine step_reads (.inr rfl) ended (·.sees .ident) reads everywhere spans ?_
  cases tree with
  | leaf token => contradiction
  | node kind row =>
      rcases (Bool.or_eq_true ..).mp entry with isField | isSpread
      · right
        obtain ⟨seen, read⟩ := recordField_reads reads everywhere isField spans ended
        have next : cursor.kind? = some .ident := eq_of_beq seen
        exact ⟨seesMore_of_kind? next (by decide) (by decide) (by decide) (by decide),
          by simp [Cursor.sees, next], by simp [Cursor.sees, next], seen, read⟩
      · exact .inl isSpread

/-- The items of a collection up to its closer. -/
theorem items_read {item : Phrase} {closer : TokenKind} (advances : Phrase.Advances seesMore item)
    (placed : ∀ cursor, seesMore cursor = true → Placed cursor (item cursor).trees (item cursor).rest)
    (closed : rest.kind? = some closer) (finished : seesMore rest = false) (items : List Tree)
    (each : ∀ tree ∈ items, ∀ cursor rest, cursor.Spans tree.tokens rest →
      (tree.isToken .comma = true ∨ ItemEnds closer rest) →
      seesMore cursor = true ∧ item.Reads [tree] cursor rest) :
    (cursor : Cursor) → cursor.Spans (Tree.tokensOf items) rest → commasBetween items = true →
    (many seesMore item).Reads items cursor rest := by
  induction items with
  | nil =>
      intro cursor spans _
      cases spans
      exact reads_many_nil advances finished
  | cons tree items inductionHypothesis =>
      intro cursor spans between
      obtain ⟨middle, before, after⟩ := spans_tree spans
      have ending : tree.isToken .comma = true ∨ ItemEnds closer middle := by
        cases items with
        | nil =>
            cases after
            exact .inr (.inr closed)
        | cons second items =>
            simp only [commasBetween, Bool.and_eq_true, Bool.or_eq_true] at between
            refine between.1.imp_right fun isComma => ?_
            obtain ⟨comma, rfl, same⟩ := exists_leaf_of_isToken isComma
            obtain ⟨_, next, -⟩ := spans_tree after
            exact .inl (same ▸ next.kind?)
      obtain ⟨more, first⟩ := each tree (.head _) cursor middle before ending
      have later : commasBetween items = true := by
        cases items with
        | nil => rfl
        | cons second items => exact ((Bool.and_eq_true ..).mp between).2
      exact reads_many_cons advances placed more first
        (inductionHypothesis (fun tree listed => each tree (.tail _ listed)) middle after later)

theorem comma_reads {phrase : Phrase} {token : Token} (spans : cursor.Spans [token] rest)
    (comma : token.kind = .comma)
    (taken : cursor.sees .comma = true → phrase cursor = take cursor) :
    seesMore cursor = true ∧ phrase.Reads [.leaf token] cursor rest := by
  have next : cursor.kind? = some .comma := comma ▸ spans.kind?
  refine ⟨seesMore_of_kind? next (by decide) (by decide) (by decide) (by decide), ?_⟩
  simpa only [Phrase.Reads, taken (spans.sees comma)] using reads_take spans

section

variable {kind : NodeKind} {item : Phrase} {closer : TokenKind} {fault : SyntaxFault}
  {level : NodeKind → Bool} {opening closing : Token} {items : List Tree}

/-- A collection is read item by item. -/
theorem collection_reads (closes : closer = .closeBracket ∨ closer = .closeBrace)
    (separated : commasBetween items = true) (same : closing.kind = closer)
    (all : ∀ tree ∈ items, tree.isToken .comma = true ∨ tree.isNodeOf level = true)
    (advances : Phrase.Advances seesMore item)
    (placed : ∀ cursor, seesMore cursor = true →
      Placed cursor (item cursor).trees (item cursor).rest)
    (commas : ∀ cursor, cursor.sees .comma = true → item cursor = take cursor)
    (each : ∀ tree ∈ items, ∀ cursor rest, tree.isNodeOf level = true →
      cursor.Spans tree.tokens rest → ItemEnds closer rest →
      seesMore cursor = true ∧ item.Reads [tree] cursor rest)
    (spans : cursor.Spans (Tree.node kind (.leaf opening :: (items ++ [.leaf closing]))).tokens
      rest) :
    (build kind (sequence [take, many seesMore item, expect closer fault]) cursor).Reads
      (.node kind (.leaf opening :: (items ++ [.leaf closing]))) rest := by
  obtain ⟨inside, first, others⟩ := spans_leaf spans
  rw [Tree.tokensOf_append] at others
  obtain ⟨last, middle, final⟩ := Cursor.Spans.append_iff.mp others
  have final : last.Spans [closing] rest := spans_last final
  have closed : last.kind? = some closer := same ▸ final.kind?
  have proper : closer ≠ .error := by rcases closes with rfl | rfl <;> decide
  have finished : seesMore last = false := by
    rcases closes with rfl | rfl <;> simp [seesMore, Cursor.sees, closed]
  have read : (many seesMore item).Reads items inside last := by
    refine items_read advances placed closed finished items ?_ inside middle separated
    intro tree listed cursor rest spans ending
    rcases all tree listed with isComma | leveled
    · obtain ⟨token, rfl, comma⟩ := exists_leaf_of_isToken isComma
      exact comma_reads spans comma (commas cursor)
    · refine each tree listed cursor rest leveled spans (ending.resolve_left fun isComma => ?_)
      obtain ⟨token, rfl, -⟩ := exists_leaf_of_isToken isComma
      contradiction
  apply reads_build
  apply reads_takeThen first
  exact read.followedBy (reads_expect final same).only (yields_expect closer fault proper).only.placed

end

theorem guard_reads (reads : below.Reads) (everywhere : tree.Everywhere Written)
    (isGuard : tree.isNodeOf (· == .guard) = true) (spans : cursor.Spans tree.tokens rest)
    (ended : rest.kind? = some .arrow) :
    cursor.kind? = some .question ∧ (guard below).Reads [tree] cursor rest := by
  cases tree with
  | leaf token => contradiction
  | node kind row =>
      obtain rfl : kind = .guard := eq_of_beq isGuard
      obtain ⟨first, condition, rfl, isQuestion, binary⟩ :=
        exists_of_fills_two everywhere.1.allowed
      obtain ⟨question, rfl, same⟩ := exists_leaf_of_isToken isQuestion
      obtain ⟨middle, before, after⟩ := spans_leaf spans
      have ends : condition.EndsAt 5 rest := Tree.endsAt_of_kind? ended (by decide)
        (simple_child everywhere.1 rfl (by simp))
      refine ⟨same ▸ before.kind?, Reads.enclose (reads_takeThen before ?_)⟩
      exact (reads_require (reads.binary condition 0 (by decide) everywhere.2.2.1
        (isNodeOf_of_nodeOf binary) (by simp) middle rest (spans_last after) ends) _).only

/-- A pattern case ends before the next one or at the closing parenthesis. -/
def CaseEnds (rest : Cursor) : Prop :=
  rest.kind? = some .pipe ∨ rest.kind? = some .closeParen

/-- What follows the pattern of a case: a guard or none, the arrow and the body. -/
theorem caseEnd_reads (reads : below.Reads) {guards : List Tree} {arrow : Token} {body : Tree}
    (everywhere : Tree.EverywhereIn Written (guards ++ [.leaf arrow, body]))
    (isArrow : arrow.kind = .arrow) (functional : body.isNodeOf NodeKind.isFunctional = true)
    (simple : body.isNodeOf (· == .patternMatch) = false)
    (guarded : guards = [] ∨ ∃ guard, guards = [guard] ∧ guard.isNodeOf (· == .guard) = true)
    (spans : cursor.Spans (Tree.tokensOf (guards ++ [.leaf arrow, body])) rest)
    (ended : CaseEnds rest) :
    (cursor.kind? = some .question ∨ cursor.kind? = some .arrow) ∧
      (sequence [when (·.sees .question) (guard below), caseBody below]).Reads
        (guards ++ [.leaf arrow, body]) cursor rest := by
  obtain ⟨guardsWritten, bodyWritten⟩ := (Tree.everywhereIn_append _ _).mp everywhere
  rw [Tree.tokensOf_append] at spans
  obtain ⟨middle, before, after⟩ := Cursor.Spans.append_iff.mp spans
  obtain ⟨next, between, behind⟩ := spans_tree after
  have between : middle.Spans [arrow] next := between
  have seen : middle.sees .arrow = true := between.sees isArrow
  have ends : body.EndsAt 4 rest := by
    rcases ended with bar | closed
    · exact Tree.endsAt_of_kind? bar (by decide) simple
    · exact Tree.endsAt_of_kind? closed (by decide) simple
  have last : (caseBody below).Reads [.leaf arrow, body] middle rest := by
    have read := reads.function body bodyWritten.2.1 functional next rest (spans_last behind) ends
    simpa only [Phrase.Reads, caseBody, seen, if_true] using
      reads_takeThen between (reads_require read .missingCaseBody).only
  have placed (cursor : Cursor) := (caseBody_yields reads.sound cursor).only.placed
  rcases guarded with rfl | ⟨guard, rfl, isGuard⟩
  · cases before
    have unguarded : cursor.sees .question = false := by
      simp [Cursor.sees, between.kind?, isArrow]
    refine ⟨.inr (isArrow ▸ between.kind?), ?_⟩
    exact (reads_skipped unguarded).followedBy last.only (placed _)
  · obtain ⟨question, read⟩ := guard_reads reads guardsWritten.1 isGuard (spans_last before)
      (isArrow ▸ between.kind?)
    refine ⟨.inl question, ?_⟩
    exact (reads_when (Cursor.sees_of_kind? question) read).followedBy last.only (placed _)

theorem patternCase_reads (reads : below.Reads) (everywhere : tree.Everywhere Written)
    (isCase : tree.isNodeOf (· == .patternCase) = true) (spans : cursor.Spans tree.tokens rest)
    (ended : CaseEnds rest) :
    cursor.kind? = some .pipe ∧ (patternCase below).Reads [tree] cursor rest := by
  cases tree with
  | leaf token => contradiction
  | node kind row =>
      obtain rfl : kind = .patternCase := eq_of_beq isCase
      obtain ⟨bar, pattern, guards, arrow, body, rfl, isBar, binary, isArrow, functional, guarded⟩ :=
        patternCase_parts everywhere.1
      obtain ⟨inside, first, others⟩ := spans_leaf spans
      obtain ⟨middle, before, after⟩ := spans_tree others
      obtain ⟨next, last⟩ := caseEnd_reads reads everywhere.2.2.2 isArrow functional
        (simple_child everywhere.1 rfl (by simp)) guarded after ended
      have simple : pattern.isNodeOf (· == .patternMatch) = false :=
        simple_child everywhere.1 rfl (by simp)
      have ends : pattern.EndsAt 5 middle := by
        rcases next with question | arrow
        · exact Tree.endsAt_of_kind? question (by decide) simple
        · exact Tree.endsAt_of_kind? arrow (by decide) simple
      have read := reads.binary pattern 0 (by decide) everywhere.2.2.1 binary (by simp) inside middle
        before ends
      refine ⟨isBar ▸ first.kind?, Reads.enclose (reads_takeThen first ?_)⟩
      apply (reads_require read _).followedBy last
      exact ((caseGuard_yields reads.sound _).followedBy (caseBody_yields reads.sound _).only).placed

theorem cases_read (reads : below.Reads) (closed : rest.kind? = some .closeParen) (row : List Tree) :
    (cursor : Cursor) → Tree.EverywhereIn Written row →
    row.all (isNodeOf (· == .patternCase)) = true → cursor.Spans (Tree.tokensOf row) rest →
    CaseEnds cursor ∧ (many (·.sees .pipe) (patternCase below)).Reads row cursor rest := by
  have advances := patternCase_advances reads.sound
  induction row with
  | nil =>
      intro cursor _ _ spans
      cases spans
      exact ⟨.inr closed, reads_many_nil advances (by simp [Cursor.sees, closed])⟩
  | cons tree row inductionHypothesis =>
      intro cursor everywhere cases spans
      simp only [List.all_cons, Bool.and_eq_true] at cases
      obtain ⟨middle, before, after⟩ := spans_tree spans
      obtain ⟨ended, later⟩ := inductionHypothesis middle everywhere.2 cases.2 after
      obtain ⟨bar, first⟩ := patternCase_reads reads everywhere.1 cases.1 before ended
      exact ⟨.inl bar, reads_many_cons advances
        (fun _ seen => (patternCase_yields reads.sound seen).placed) (Cursor.sees_of_kind? bar)
        first later⟩

section

variable {row : List Tree}

theorem number_reads (everywhere : (Tree.node .number row).Everywhere Written)
    (spans : cursor.Spans (Tree.node .number row).tokens rest) :
    (atom below cursor).Reads (.node .number row) rest := by
  have allowed := everywhere.1.allowed
  simp only [allows, Bool.or_eq_true] at allowed
  rcases allowed with single | signed
  · obtain ⟨child, rfl, isToken⟩ := exists_of_fills_one single
    obtain ⟨token, rfl, isNumber⟩ := exists_leaf_of_isTokenOf isToken
    have next : cursor.kind? = some token.kind := spans.kind?
    have taken : atom below cursor = build .number take cursor := by
      cases kind : token.kind
      case int | float => simp [atom, next, kind]
      all_goals simp [kind, TokenKind.isNumber] at isNumber
    rw [taken]
    exact reads_build (reads_take spans.settled)
  · obtain ⟨first, second, rfl, isMinus, isToken⟩ := exists_of_fills_two signed
    obtain ⟨sign, rfl, minus⟩ := exists_leaf_of_isToken isMinus
    obtain ⟨token, rfl, isNumber⟩ := exists_leaf_of_isTokenOf isToken
    have next : cursor.kind? = some .minus := minus ▸ spans.kind?
    have following : cursor.following? = some token.kind := spans.following?
    have negative : cursor.seesNegative = true := by
      simp [Cursor.seesNegative, Cursor.sees, next, following, isNumber]
    have taken : atom below cursor = build .number (sequence [take, take]) cursor := by
      simp [atom, next, negative]
    obtain ⟨middle, before, after⟩ := spans_leaf spans
    rw [taken]
    exact reads_build (reads_takeThen before (reads_take (spans_last after)).only)

theorem tag_reads (everywhere : (Tree.node .tag row).Everywhere Written)
    (spans : cursor.Spans (Tree.node .tag row).tokens rest) :
    (atom below cursor).Reads (.node .tag row) rest := by
  obtain ⟨first, second, rfl, isHash, isName⟩ := exists_of_fills_two everywhere.1.allowed
  obtain ⟨hash, rfl, same⟩ := exists_leaf_of_isToken isHash
  obtain ⟨token, rfl, ident⟩ := identifier_parts everywhere.2.2.1 (isNodeOf_of_nodeOf isName)
  have next : cursor.kind? = some .hash := same ▸ spans.kind?
  obtain ⟨middle, before, after⟩ := spans_leaf spans
  have taken : atom below cursor = build .tag (sequence [take, tagName]) cursor := by
    simp [atom, next]
  rw [taken]
  exact reads_build (reads_takeThen before (tagName_reads (spans_last after) ident).only)

theorem hole_reads (everywhere : (Tree.node .hole row).Everywhere Written)
    (spans : cursor.Spans (Tree.node .hole row).tokens rest) :
    (atom below cursor).Reads (.node .hole row) rest := by
  obtain ⟨first, second, rfl, isOpener, isCloser⟩ := exists_of_fills_two everywhere.1.allowed
  obtain ⟨opening, rfl, opener⟩ := exists_leaf_of_isToken isOpener
  obtain ⟨closing, rfl, closer⟩ := exists_leaf_of_isToken isCloser
  have next : cursor.kind? = some .openParen := opener ▸ spans.kind?
  have following : cursor.following? = some .closeParen := closer ▸ spans.following?
  obtain ⟨middle, before, after⟩ := spans_leaf spans
  have taken : atom below cursor = build .hole (sequence [take, take]) cursor := by
    simp [atom, next, following]
  rw [taken]
  exact reads_build (reads_takeThen before (reads_take (spans_last after)).only)

/-- The parentheses of an expression are not those of a hole, and a pattern match may stand in
them. -/
theorem parenthesized_reads (reads : below.Reads)
    (everywhere : (Tree.node .parenthesized row).Everywhere Written)
    (spans : cursor.Spans (Tree.node .parenthesized row).tokens rest) :
    (atom below cursor).Reads (.node .parenthesized row) rest := by
  obtain ⟨first, content, last, rfl, isOpener, leveled, isCloser⟩ :=
    exists_of_fills_three everywhere.1.allowed
  obtain ⟨opening, rfl, opener⟩ := exists_leaf_of_isToken isOpener
  obtain ⟨closing, rfl, closer⟩ := exists_leaf_of_isToken (by simpa [orGap] using isCloser)
  have expressed := isNodeOf_of_nodeOf leveled
  have next : cursor.kind? = some .openParen := opener ▸ spans.kind?
  obtain ⟨inside, before, others⟩ := spans_leaf spans
  obtain ⟨middle, between, after⟩ := spans_tree others
  have after : middle.Spans [closing] rest := spans_last after
  have closed : middle.kind? = some .closeParen := closer ▸ after.kind?
  have seen := seesExpression_of_opens between (opens_tokens content everywhere.2.2.1 expressed)
  have filled : cursor.following? ≠ some .closeParen := by
    intro following
    have ended : inside.kind? = some .closeParen := by
      rw [before.eq_advanced, Cursor.advanced_kind?]
      exact following
    rw [Cursor.seesExpression_eq_false ended rfl (by decide) (by decide)] at seen
    contradiction
  have ends : content.EndsAt 1 middle := by
    constructor
    · intro token same
      obtain rfl : .closeParen = token := by simpa [closed] using same
      decide
    · intro _
      exact Cursor.sees_of_kind? closed
  have read := expression_reads reads everywhere.2.2.1 expressed inside middle between ends
  have taken : atom below cursor = build .parenthesized
      (sequence [take, require (expression below) .missingExpression,
        expect .closeParen (.missingCloser .closeParen)]) cursor := by
    simp [atom, next, filled]
  rw [taken]
  apply reads_build
  apply reads_takeThen before
  exact (reads_require read _).followedBy (reads_expect after closer).only
    (yields_expect .closeParen _ (by decide)).only.placed

theorem list_reads (reads : below.Reads) (everywhere : (Tree.node .list row).Everywhere Written)
    (spans : cursor.Spans (Tree.node .list row).tokens rest) :
    (atom below cursor).Reads (.node .list row) rest := by
  obtain ⟨opening, items, closing, rfl, opener, closer, all⟩ :=
    collection_parts everywhere.1.allowed
  have next : cursor.kind? = some .openBracket := opener ▸ spans.kind?
  have taken : atom below cursor = build .list (sequence [take, many seesMore (listItem below),
      expect .closeBracket (.missingCloser .closeBracket)]) cursor := by
    simp [atom, next]
  have separated : commasBetween items = true := by
    simpa [separates] using everywhere.1.separated
  rw [taken]
  refine collection_reads (.inl rfl) separated closer all (listItem_advances reads.sound)
    (fun _ more => (listItem_yields reads.sound more).placed)
    (fun _ comma => by simp [listItem, comma]) ?_ spans
  intro tree listed cursor rest element spans ended
  exact element_reads reads (Tree.everywhere_of_mem everywhere.2 (by simp [listed])) element
    (simple_child everywhere.1 rfl (by simp [listed])) spans ended

theorem record_reads (reads : below.Reads) (everywhere : (Tree.node .record row).Everywhere Written)
    (spans : cursor.Spans (Tree.node .record row).tokens rest) :
    (atom below cursor).Reads (.node .record row) rest := by
  obtain ⟨opening, items, closing, rfl, opener, closer, all⟩ :=
    collection_parts everywhere.1.allowed
  have next : cursor.kind? = some .openBrace := opener ▸ spans.kind?
  have taken : atom below cursor = build .record (sequence [take, many seesMore (recordItem below),
      expect .closeBrace (.missingCloser .closeBrace)]) cursor := by
    simp [atom, next]
  have separated : commasBetween items = true := by
    simpa [separates] using everywhere.1.separated
  rw [taken]
  refine collection_reads (.inr rfl) separated closer all (recordItem_advances reads.sound)
    (fun _ more => (recordItem_yields reads.sound more).placed)
    (fun _ comma => by simp [recordItem, comma]) ?_ spans
  intro tree listed cursor rest entry spans ended
  exact entry_reads reads (Tree.everywhere_of_mem everywhere.2 (by simp [listed])) entry spans ended

theorem patternMatch_reads (reads : below.Reads)
    (everywhere : (Tree.node .patternMatch row).Everywhere Written)
    (spans : cursor.Spans (Tree.node .patternMatch row).tokens rest)
    (closed : rest.kind? = some .closeParen) :
    (atom below cursor).Reads (.node .patternMatch row) rest := by
  have settled := spans.settled_of_ne_nil (tokens_ne_nil everywhere rfl)
  have allowed := everywhere.1.allowed
  simp only [allows, Bool.and_eq_true] at allowed
  obtain ⟨ended, read⟩ := cases_read reads closed row cursor.settled everywhere.2 allowed.2 settled
  have bar : cursor.kind? = some .pipe := by
    refine ended.resolve_right fun wrong => ?_
    have seen := seesExpression_of_opens settled (opens_patternMatch everywhere)
    rw [Cursor.seesExpression_eq_false wrong rfl (by decide) (by decide)] at seen
    contradiction
  have taken : atom below cursor =
      build .patternMatch (many (·.sees .pipe) (patternCase below)) cursor := by
    simp [atom, bar]
  rw [taken]
  exact reads_build read

/-- An atom is read whatever follows it, but for the closing parenthesis of a pattern match. -/
theorem atom_reads (reads : below.Reads) (everywhere : tree.Everywhere Written)
    (isAtom : tree.isNodeOf NodeKind.isAtom = true) (spans : cursor.Spans tree.tokens rest)
    (closed : tree.isNodeOf (· == .patternMatch) = true → rest.sees .closeParen = true) :
    (atom below cursor).Reads tree rest := by
  cases tree with
  | leaf token => contradiction
  | node kind row =>
      have allowed := everywhere.1.allowed
      cases kind
      case identifier | placeholder | text =>
        obtain ⟨child, rfl, isToken⟩ := exists_of_fills_one allowed
        obtain ⟨token, rfl, same⟩ := exists_leaf_of_isToken isToken
        have next : cursor.kind? = some token.kind := spans.kind?
        simp only [atom, next, same]
        exact reads_build (reads_take spans.settled)
      case bytes =>
        obtain ⟨child, rfl, isToken⟩ := exists_of_fills_one allowed
        obtain ⟨token, rfl, accepted⟩ := exists_leaf_of_isTokenOf isToken
        have next : cursor.kind? = some token.kind := spans.kind?
        have taken : atom below cursor = build .bytes take cursor := by
          rcases (Bool.or_eq_true ..).mp accepted with bytes | byte
          · simp [atom, next, eq_of_beq bytes]
          · simp [atom, next, eq_of_beq byte]
        rw [taken]
        exact reads_build (reads_take spans.settled)
      case number => exact number_reads everywhere spans
      case tag => exact tag_reads everywhere spans
      case hole => exact hole_reads everywhere spans
      case parenthesized => exact parenthesized_reads reads everywhere spans
      case list => exact list_reads reads everywhere spans
      case record => exact record_reads reads everywhere spans
      case patternMatch => exact patternMatch_reads reads everywhere spans (eq_of_beq (closed rfl))
      all_goals contradiction

end

end Grammar

end Scrapscript
