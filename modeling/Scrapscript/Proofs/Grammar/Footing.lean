import Scrapscript.Proofs.Grammar
import Scrapscript.Proofs.Grammar.Loop
import Scrapscript.Proofs.Tree.Nesting

/-!
Where the grammar reports a missing piece. A piece that a look at the next token shows to be missing
is reported where the last significant token ends. A piece that is looked for in vain is reported
where the next significant token starts, because the rule that was tried has placed the blanks
before it. Any other missing piece is reported at the end of what was found before, and that is
where a significant token ends, unless a piece was looked for in vain just there.
-/

namespace Scrapscript

/-- Faults of a piece that is missed before any rule is tried for it. -/
def SyntaxFault.isForeseen : SyntaxFault → Bool
  | missingBinding | missingFieldName | missingTagName => true
  | _ => false

/-- Faults of a piece that a rule was tried for in vain. -/
def SyntaxFault.isAttempted : SyntaxFault → Bool
  | missingBoundExpression | missingType | missingFunctionBody | missingOperand | missingExpression
  | missingFieldValue | missingPattern | missingCondition | missingCaseBody => true
  | _ => false

theorem SyntaxFault.isForeseen_of_isAttempted {fault : SyntaxFault}
    (attempted : fault.isAttempted = true) : fault.isForeseen = false := by
  cases fault <;> first | rfl | contradiction

namespace Token

variable {tokens : List Token} {start stop offset : Nat}

/-- Whether a significant token ends at an offset. -/
def wordEndsAt (tokens : List Token) (offset : Nat) : Bool :=
  (located 0 tokens).any fun entry => !entry.1.isTrivia && entry.2 + entry.1.width == offset

/-- A significant token ends at `start`, and only blanks stand between it and the next one, or the
end of the tokens, at `stop`. -/
def Gap (tokens : List Token) (start stop : Nat) : Prop :=
  ∃ before word blanks after, tokens = before ++ word :: (blanks ++ after) ∧
    word.isTrivia = false ∧ (∀ token ∈ blanks, token.isTrivia = true) ∧
    (∀ token ∈ after.head?, token.isTrivia = false) ∧
    widthOf before + word.width = start ∧ start + widthOf blanks = stop

theorem wordEndsAt_iff :
    wordEndsAt tokens offset = true ↔
      ∃ before word after, tokens = before ++ word :: after ∧ word.isTrivia = false ∧
        widthOf before + word.width = offset := by
  simp only [wordEndsAt, List.any_eq_true, Bool.and_eq_true, Bool.not_eq_true', beq_iff_eq,
    Prod.exists]
  constructor
  · intro found
    obtain ⟨word, start, listed, significant, ends⟩ := found
    obtain ⟨before, after, split, begins⟩ := exists_of_mem_located listed
    exact ⟨before, word, after, split, significant, by omega⟩
  · intro found
    obtain ⟨before, word, after, rfl, significant, ends⟩ := found
    refine ⟨word, widthOf before, ?_, significant, ends⟩
    simp [located_append, located]

theorem Gap.wordEndsAt (gap : Gap tokens start stop) : wordEndsAt tokens start = true := by
  obtain ⟨before, word, blanks, after, split, significant, -, -, ends, -⟩ := gap
  exact wordEndsAt_iff.mpr ⟨before, word, blanks ++ after, split, significant, ends⟩

/-- Two beginnings of a run of tokens that are as wide as each other are the same, if no token is
empty. -/
theorem eq_of_widthOf_eq {first second after others : List Token}
    (wide : ∀ token ∈ first ++ after, 0 < token.width) (split : first ++ after = second ++ others)
    (same : widthOf first = widthOf second) : first = second := by
  induction first generalizing second with
  | nil =>
      cases second with
      | nil => rfl
      | cons token rest =>
          have positive := wide token (by rw [split]; exact .head _)
          simp only [widthOf] at same
          omega
  | cons token rest inductionHypothesis =>
      cases second with
      | nil =>
          have positive := wide token (.head _)
          simp only [widthOf] at same
          omega
      | cons other more =>
          obtain ⟨rfl, later⟩ := List.cons.inj split
          simp only [widthOf, Nat.add_left_cancel_iff] at same
          rw [inductionHypothesis (fun token listed => wide token (.tail _ listed)) later same]

/-- A gap that a significant token ends at the end of is empty. -/
theorem Gap.eq_of_wordEndsAt (gap : Gap tokens start stop)
    (wide : ∀ token ∈ tokens, 0 < token.width) (ends : Token.wordEndsAt tokens stop = true) :
    start = stop := by
  obtain ⟨before, word, blanks, after, rfl, significant, trivia, -, wordEnds, gapEnds⟩ := gap
  obtain ⟨earlier, last, later, split, lastSignificant, lastEnds⟩ := wordEndsAt_iff.mp ends
  have regrouped : (before ++ word :: blanks) ++ after = (earlier ++ [last]) ++ later := by
    simpa using split
  have together : before ++ word :: blanks = earlier ++ [last] := by
    apply eq_of_widthOf_eq (by simpa using wide) regrouped
    simp only [widthOf_append, widthOf]
    omega
  rcases List.eq_nil_or_concat blanks with rfl | ⟨some, blank, rfl⟩
  · simpa [widthOf] using gapEnds
  · -- The last blank would be the significant token.
    rw [List.concat_eq_append, ← List.cons_append, ← List.append_assoc] at together
    obtain ⟨-, same⟩ := List.append_inj' together rfl
    obtain rfl : blank = last := List.singleton_inj.mp same
    have blankTrivia := trivia blank (by simp)
    rw [lastSignificant] at blankTrivia
    contradiction

end Token

/-- Where an empty error may be: where a significant token ends, or where a piece was looked for in
vain. -/
def Footing (tokens : List Token) (errors : List SyntaxError) (offset : Nat) : Prop :=
  Token.wordEndsAt tokens offset = true ∨
    ∃ error ∈ errors, error.fault.isAttempted = true ∧ error.start = offset

/-- Where an error is, which is one of some errors: at a gap, if it reports a missing piece. -/
structure SyntaxError.Sited (tokens : List Token) (errors : List SyntaxError)
    (error : SyntaxError) : Prop where
  foreseen : error.fault.isForeseen = true →
    error.start = error.stop ∧ Token.wordEndsAt tokens error.start = true
  attempted : error.fault.isAttempted = true →
    error.start = error.stop ∧ ∃ start, Token.Gap tokens start error.start
  footing : error.start = error.stop → Footing tokens errors error.start

section

variable {tokens : List Token} {errors others : List SyntaxError} {error : SyntaxError}
  {offset : Nat}

theorem Footing.mono (footing : Footing tokens errors offset) (more : errors ⊆ others) :
    Footing tokens others offset := by
  refine footing.imp_right fun found => ?_
  obtain ⟨error, listed, attempted⟩ := found
  exact ⟨error, more listed, attempted⟩

theorem Footing.cons (footing : Footing tokens errors offset) (error : SyntaxError) :
    Footing tokens (error :: errors) offset :=
  footing.mono (List.subset_cons_self error errors)

theorem SyntaxError.Sited.mono (sited : error.Sited tokens errors) (more : errors ⊆ others) :
    error.Sited tokens others :=
  ⟨sited.foreseen, sited.attempted, fun empty => (sited.footing empty).mono more⟩

end

namespace Cursor

/-- A cursor in a run of tokens, none of which is empty. Unless the parse was cut off, its errors
are where they should be. -/
structure Stands (tokens : List Token) (cursor : Cursor) : Prop where
  wide : ∀ token ∈ tokens, 0 < token.width
  within : cursor.tooDeep = false →
    ∃ placed, placed ++ cursor.remaining = tokens ∧ Token.widthOf placed = cursor.stop
  sited : cursor.tooDeep = false → ∀ error ∈ cursor.errors, error.Sited tokens cursor.errors

/-- A cursor that a missing piece may be reported at. -/
structure Firm (tokens : List Token) (cursor : Cursor) : Prop extends Stands tokens cursor where
  footing : cursor.tooDeep = false → Footing tokens cursor.errors cursor.stop

/-- A cursor right after a significant token. -/
structure Past (tokens : List Token) (cursor : Cursor) : Prop extends Stands tokens cursor where
  behind : cursor.tooDeep = false →
    ∃ before word, before ++ word :: cursor.remaining = tokens ∧ word.isTrivia = false ∧
      Token.widthOf before + word.width = cursor.stop

variable {tokens : List Token} {cursor rest : Cursor} {fault : SyntaxFault}

theorem Past.wordEndsAt (past : cursor.Past tokens) (shallow : cursor.tooDeep = false) :
    Token.wordEndsAt tokens cursor.stop = true := by
  obtain ⟨before, word, split, significant, ends⟩ := past.behind shallow
  exact Token.wordEndsAt_iff.mpr ⟨before, word, _, split.symm, significant, ends⟩

theorem Past.firm (past : cursor.Past tokens) : cursor.Firm tokens :=
  { past.toStands with footing := fun shallow => .inl (past.wordEndsAt shallow) }

/-- The blanks that are not placed yet are a gap. -/
theorem Past.gap (past : cursor.Past tokens) (shallow : cursor.tooDeep = false) :
    Token.Gap tokens cursor.stop cursor.start := by
  obtain ⟨before, word, split, significant, ends⟩ := past.behind shallow
  refine ⟨before, word, cursor.blanks.tokens, _, split.symm, significant, cursor.blanks.trivia, ?_,
    ends, rfl⟩
  intro token first
  cases next : cursor.words with
  | nil => simp [next] at first
  | cons word more =>
      obtain rfl : word.token = token := by simpa [next] using first
      exact word.significant

theorem Stands.settled (stands : cursor.Stands tokens) : cursor.settled.Stands tokens := by
  refine ⟨stands.wide, fun shallow => ?_, stands.sited⟩
  obtain ⟨placed, split, width⟩ := stands.within shallow
  refine ⟨placed ++ cursor.blanks.tokens, ?_, ?_⟩
  · rw [List.append_assoc, remaining_settled, split]
  · rw [Token.widthOf_append, width, settled_stop]

theorem Stands.advanced (stands : cursor.Stands tokens) (begun : cursor.words ≠ []) :
    cursor.advanced.Past tokens := by
  cases next : cursor.words with
  | nil => contradiction
  | cons word more =>
      have behind : cursor.advanced.tooDeep = false →
          ∃ before word, before ++ word :: cursor.advanced.remaining = tokens ∧
            word.isTrivia = false ∧ Token.widthOf before + word.width = cursor.advanced.stop := by
        intro shallow
        obtain ⟨placed, split, width⟩ := stands.within (by simpa using shallow)
        refine ⟨placed ++ cursor.blanks.tokens, word.token, ?_, word.significant, ?_⟩
        · rw [List.append_assoc, remaining_advanced next, split]
        · rw [Token.widthOf_append, width, advanced_eq next, start]
      refine ⟨⟨stands.wide, fun shallow => ?_, ?_⟩, behind⟩
      · obtain ⟨before, word, split, -, ends⟩ := behind shallow
        refine ⟨before ++ [word], by simpa using split, ?_⟩
        simpa [Token.widthOf_append, Token.widthOf] using ends
      · rw [advanced_eq next]
        exact stands.sited

/-- Nothing is asked of a cursor once the parse was cut off. -/
theorem Stands.past_of_tooDeep (stands : cursor.Stands tokens) (deep : rest.tooDeep = true) :
    rest.Past tokens := by
  refine ⟨⟨stands.wide, ?_, ?_⟩, ?_⟩ <;> simp [deep]

theorem Stands.report (stands : cursor.Stands tokens) {start stop : Nat}
    (sited : cursor.tooDeep = false →
      SyntaxError.Sited tokens (⟨fault, start, stop⟩ :: cursor.errors) ⟨fault, start, stop⟩) :
    (cursor.report fault start stop).Stands tokens := by
  refine ⟨stands.wide, stands.within, fun shallow error listed => ?_⟩
  rcases List.mem_cons.mp listed with rfl | earlier
  · exact sited shallow
  · exact (stands.sited shallow error earlier).mono (List.subset_cons_self _ _)

end Cursor

namespace Phrase

variable {tokens : List Token} {cursor : Cursor} {fault : SyntaxFault} {phrase : Phrase}
  {condition : Cursor → Bool}

theorem take_past (stands : cursor.Stands tokens) (begun : cursor.words ≠ []) :
    (take cursor).rest.Past tokens := by
  obtain ⟨word, more, next⟩ := List.exists_cons_of_ne_nil begun
  rw [take_eq next]
  exact stands.advanced begun

/-- A piece that is neither foreseen nor attempted is missed where the node before it ends. -/
theorem missing_firm (firm : cursor.Firm tokens) (unforeseen : fault.isForeseen = false)
    (unattempted : fault.isAttempted = false) : (missing fault cursor).rest.Firm tokens := by
  refine ⟨firm.toStands.report fun shallow => ?_, fun shallow => (firm.footing shallow).cons _⟩
  exact ⟨by simp [unforeseen], by simp [unattempted], fun _ => (firm.footing shallow).cons _⟩

theorem missing_firm_of_foreseen (past : cursor.Past tokens) (foreseen : fault.isForeseen = true) :
    (missing fault cursor).rest.Firm tokens := by
  have unattempted : fault.isAttempted = false :=
    Bool.eq_false_iff.mpr fun attempted => by
      simp [SyntaxFault.isForeseen_of_isAttempted attempted] at foreseen
  refine ⟨past.toStands.report fun shallow => ?_,
    fun shallow => .inl (past.wordEndsAt shallow)⟩
  exact ⟨fun _ => ⟨rfl, past.wordEndsAt shallow⟩, by simp [unattempted],
    fun _ => .inl (past.wordEndsAt shallow)⟩

/-- What was looked for in vain is missed after the blanks. -/
theorem missing_firm_of_attempted (past : cursor.Past tokens)
    (attempted : fault.isAttempted = true) : (missing fault cursor.settled).rest.Firm tokens := by
  have footing : Footing tokens (missing fault cursor.settled).rest.errors cursor.settled.stop :=
    .inr ⟨_, .head _, attempted, rfl⟩
  refine ⟨past.toStands.settled.report fun shallow => ?_, fun _ => footing⟩
  refine ⟨?_, fun _ => ⟨rfl, cursor.stop, past.gap shallow⟩, fun _ => footing⟩
  simp [SyntaxFault.isForeseen_of_isAttempted attempted]

/-- A token that is rejected is not empty, and neither is its error. -/
theorem reject_past (stands : cursor.Stands tokens) (inside : cursor.atEnd = false)
    (unforeseen : fault.isForeseen = false) (unattempted : fault.isAttempted = false) :
    (reject fault cursor).rest.Past tokens := by
  obtain ⟨word, more, next⟩ := Cursor.atEnd_eq_false_iff.mp inside
  rw [reject_eq fault next]
  refine Cursor.Stands.advanced (stands.report fun shallow => ?_) (by simp [next])
  refine ⟨by simp [unforeseen], by simp [unattempted], fun empty => ?_⟩
  obtain ⟨placed, split, -⟩ := stands.within shallow
  have positive : 0 < word.token.width := by
    apply stands.wide
    simp [← split, Cursor.remaining, next]
  simp only [Cursor.nextStop, Cursor.nextText, next] at empty
  rw [Token.width] at positive
  omega

theorem expect_firm (firm : cursor.Firm tokens) (closer : TokenKind) :
    (expect closer (.missingCloser closer) cursor).rest.Firm tokens := by
  unfold expect
  split
  · rename_i seen
    exact (take_past firm.toStands (Cursor.words_ne_nil_of_sees seen)).firm
  · exact missing_firm firm rfl rfl

theorem when_firm (firm : cursor.Firm tokens)
    (held : condition cursor = true → (phrase cursor).rest.Firm tokens) :
    (when condition phrase cursor).rest.Firm tokens := by
  unfold when
  split
  · rename_i holds
    exact held holds
  · exact firm

/-- What every round of a loop keeps, the loop keeps. -/
theorem repeated_keeps (kept : Cursor → Prop)
    (round : ∀ cursor, kept cursor → condition cursor = true → kept (phrase cursor).rest)
    (rounds : List Word) (cursor : Cursor) (begun : kept cursor) :
    kept (repeated condition phrase rounds cursor).rest := by
  induction rounds generalizing cursor with
  | nil => exact begun
  | cons _ rounds inductionHypothesis =>
      unfold repeated
      split
      · rename_i holds
        exact inductionHypothesis _ (round cursor begun holds)
      · exact begun

end Phrase

/-- What is left after a node that was found. -/
def Outcome.Lands (tokens : List Token) : Outcome → Prop
  | .found _ rest => rest.Firm tokens
  | .absent _ | .cut _ _ => True

/-- A rule that leaves a cursor that a missing piece may be reported at. -/
def Rule.Lands (tokens : List Token) (rule : Rule) : Prop :=
  ∀ cursor : Cursor, cursor.Stands tokens → (rule cursor).Lands tokens

namespace Rule

variable {tokens : List Token} {cursor : Cursor} {rule : Rule} {good : Tree → Cursor → Prop}

theorem Lands.required (lands : rule.Lands tokens) (builds : rule.Builds good)
    {fault : SyntaxFault} (attempted : fault.isAttempted = true) (past : cursor.Past tokens) :
    (Phrase.require rule fault cursor).rest.Firm tokens := by
  have meets := builds cursor
  have landed := lands cursor past.toStands
  unfold Phrase.require
  cases ended : rule cursor with
  | found node rest =>
      rw [ended] at landed
      exact landed
  | absent rest =>
      -- The rule has placed the blanks, and the piece is missed after them.
      rw [ended] at meets
      obtain ⟨-, rfl⟩ := meets
      exact Phrase.missing_firm_of_attempted past attempted
  | cut node rest =>
      rw [ended] at meets
      have deep : (Phrase.missing fault rest).rest.tooDeep = true := meets.1
      exact (past.toStands.past_of_tooDeep deep).firm

theorem Lands.allowed (lands : rule.Lands tokens) (builds : rule.Builds good)
    (stands : cursor.Stands tokens) (seen : cursor.seesExpression = true) :
    (Phrase.allow rule cursor).rest.Firm tokens := by
  have meets := builds cursor
  have landed := lands cursor stands
  unfold Phrase.allow
  cases ended : rule cursor with
  | found node rest =>
      rw [ended] at landed
      exact landed
  | absent rest =>
      rw [ended] at meets
      simp [Outcome.Meets, seen] at meets
  | cut node rest =>
      rw [ended] at meets
      exact (stands.past_of_tooDeep meets.1).firm

theorem Lands.settled (lands : rule.Lands tokens) : (Rule.settled rule).Lands tokens :=
  fun cursor stands => lands cursor.settled stands.settled

theorem Lands.extended (lands : rule.Lands tokens) {condition : Cursor → Bool} {kind : NodeKind}
    {tail : Phrase} (step : ∀ cursor : Cursor, cursor.Firm tokens → condition cursor = true →
      (tail cursor).rest.Firm tokens) :
    (rule.extended condition kind tail).Lands tokens := by
  intro cursor stands
  have landed := lands cursor stands
  unfold Rule.extended
  cases ended : rule cursor with
  | found node rest =>
      rw [ended] at landed
      by_cases holds : condition rest = true
      · simp only [holds, if_true]
        exact step rest landed holds
      · simp only [holds]
        exact landed
  | absent | cut => trivial

section

variable {growth : Cursor → Option Growth}
  (step : ∀ (cursor : Cursor) (larger : Growth), cursor.Firm tokens →
    growth cursor = some larger → (larger.tail cursor).rest.Firm tokens)

include step

theorem grow_lands (rounds : List Word) (node : Tree) (cursor : Cursor)
    (firm : cursor.Firm tokens) : (grow growth rounds node cursor).Lands tokens := by
  induction rounds generalizing node cursor with
  | nil => exact firm
  | cons _ rounds inductionHypothesis =>
      unfold grow
      cases grows : growth cursor with
      | none => exact firm
      | some larger => exact inductionHypothesis _ _ (step cursor larger firm grows)

theorem Lands.grown (lands : rule.Lands tokens) : (rule.grown growth).Lands tokens := by
  intro cursor stands
  have landed := lands cursor stands
  unfold Rule.grown
  cases ended : rule cursor with
  | found node rest =>
      rw [ended] at landed
      exact grow_lands step rest.words node rest landed
  | absent | cut => trivial

end

theorem Lands.grownIf (lands : rule.Lands tokens) {condition : Cursor → Bool} {kind : NodeKind}
    {tail : Phrase} (step : ∀ cursor : Cursor, cursor.Firm tokens → condition cursor = true →
      (tail cursor).rest.Firm tokens) :
    (rule.grown (Growth.onlyIf condition kind tail)).Lands tokens := by
  refine lands.grown fun cursor larger firm grows => ?_
  obtain ⟨holds, rfl⟩ := Growth.onlyIf_eq_some_iff.mp grows
  exact step cursor firm holds

end Rule

/-- A level whose rules land. -/
structure Level.Lands (tokens : List Token) (below : Level) : Prop where
  sound : below.Sound
  function : below.function.Lands tokens
  binary : ∀ power, (below.binary power).Lands tokens

namespace Grammar

open Scrapscript.Phrase Scrapscript.Rule

variable {tokens : List Token} {below : Level} {cursor : Cursor}

/-- A token and the piece that has to follow it. -/
theorem takeThen_firm {rule : Rule} {good : Tree → Cursor → Prop} {fault : SyntaxFault}
    {token : TokenKind} (lands : rule.Lands tokens) (builds : rule.Builds good)
    (attempted : fault.isAttempted = true) (stands : cursor.Stands tokens)
    (seen : cursor.sees token = true) :
    (sequence [take, require rule fault] cursor).rest.Firm tokens :=
  lands.required builds attempted (take_past stands (Cursor.words_ne_nil_of_sees seen))

theorem ascription_lands (lands : below.Lands tokens) : (ascription below).Lands tokens :=
  (lands.function.extended fun _ firm seen =>
    takeThen_firm lands.function lands.sound.function rfl firm.toStands seen).settled

theorem binding_firm (lands : below.Lands tokens) (past : cursor.Past tokens) :
    (binding below cursor).rest.Firm tokens := by
  unfold binding
  split
  · rename_i seen
    refine Lands.allowed ?_ (bound_builds lands.sound) past.toStands seen
    exact (ascription_lands lands).extended fun _ firm seen =>
      takeThen_firm (ascription_lands lands) (ascription_builds lands.sound) rfl firm.toStands seen
  · exact missing_firm_of_foreseen past rfl

theorem expression_lands (lands : below.Lands tokens) : (expression below).Lands tokens := by
  refine ((ascription_lands lands).grownIf fun cursor firm seen => ?_).settled
  exact binding_firm lands (take_past firm.toStands (Cursor.words_ne_nil_of_sees seen))

theorem name_past (stands : cursor.Stands tokens) (seen : cursor.sees .ident = true) :
    (name cursor).rest.Past tokens := by
  rw [name_rest seen]
  exact stands.advanced (Cursor.words_ne_nil_of_sees seen)

theorem tagName_firm (past : cursor.Past tokens) : (tagName cursor).rest.Firm tokens := by
  unfold tagName
  split
  · rename_i seen
    exact (name_past past.toStands ((Bool.and_eq_true ..).mp seen).1).firm
  · exact missing_firm_of_foreseen past rfl

theorem fieldName_firm (past : cursor.Past tokens) : (fieldName cursor).rest.Firm tokens := by
  unfold fieldName
  split
  · rename_i seen
    exact (name_past past.toStands seen).firm
  · exact missing_firm_of_foreseen past rfl

theorem spread_firm (lands : below.Lands tokens) (stands : cursor.Stands tokens)
    (seen : cursor.sees .dotDot = true) : (spread below cursor).rest.Firm tokens := by
  have dots := take_past stands.settled (Cursor.words_ne_nil_of_sees seen)
  exact when_firm dots.firm fun begun =>
    (lands.binary 0).allowed (lands.sound.binary 0) dots.toStands begun

theorem separator_firm (closer : TokenKind) (firm : cursor.Firm tokens) :
    (separator closer cursor).rest.Firm tokens :=
  when_firm firm fun _ => missing_firm firm rfl rfl

theorem listItem_firm (lands : below.Lands tokens) (stands : cursor.Stands tokens)
    (more : seesMore cursor = true) : (listItem below cursor).rest.Firm tokens := by
  unfold listItem
  split
  · rename_i comma
    exact (take_past stands (Cursor.words_ne_nil_of_sees comma)).firm
  split
  · rename_i dots
    exact separator_firm _ (spread_firm lands stands dots)
  split
  · rename_i seen
    exact separator_firm _
      ((ascription_lands lands).allowed (ascription_builds lands.sound) stands seen)
  · exact (reject_past stands (seesMore_atEnd more) rfl rfl).firm

theorem recordField_firm (lands : below.Lands tokens) (stands : cursor.Stands tokens)
    (seen : cursor.sees .ident = true) : (recordField below cursor).rest.Firm tokens := by
  have named := name_past stands.settled seen
  exact when_firm named.firm fun equals =>
    takeThen_firm (ascription_lands lands) (ascription_builds lands.sound) rfl named.toStands equals

theorem recordItem_firm (lands : below.Lands tokens) (stands : cursor.Stands tokens)
    (more : seesMore cursor = true) : (recordItem below cursor).rest.Firm tokens := by
  unfold recordItem
  split
  · rename_i comma
    exact (take_past stands (Cursor.words_ne_nil_of_sees comma)).firm
  split
  · rename_i dots
    exact separator_firm _ (spread_firm lands stands dots)
  split
  · rename_i seen
    exact separator_firm _ (recordField_firm lands stands seen)
  · exact (reject_past stands (seesMore_atEnd more) rfl rfl).firm

theorem guard_firm (lands : below.Lands tokens) (stands : cursor.Stands tokens)
    (seen : cursor.sees .question = true) : (guard below cursor).rest.Firm tokens :=
  takeThen_firm (lands.binary 0) (lands.sound.binary 0) rfl stands.settled seen

theorem caseBody_firm (lands : below.Lands tokens) (firm : cursor.Firm tokens) :
    (caseBody below cursor).rest.Firm tokens := by
  unfold caseBody
  split
  · rename_i seen
    exact takeThen_firm lands.function lands.sound.function rfl firm.toStands seen
  · exact missing_firm firm rfl rfl

theorem patternCase_firm (lands : below.Lands tokens) (stands : cursor.Stands tokens)
    (seen : cursor.sees .pipe = true) : (patternCase below cursor).rest.Firm tokens := by
  have pattern := (lands.binary 0).required (lands.sound.binary 0)
    (show SyntaxFault.missingPattern.isAttempted = true from rfl)
    (take_past stands.settled (Cursor.words_ne_nil_of_sees seen))
  exact caseBody_firm lands (when_firm pattern fun question =>
    guard_firm lands pattern.toStands question)

theorem patternMatch_firm (lands : below.Lands tokens) (stands : cursor.Stands tokens)
    (seen : cursor.sees .pipe = true) :
    (many (·.sees .pipe) (patternCase below) cursor).rest.Firm tokens := by
  -- The cursor is firm only after the first case, which is there.
  obtain ⟨word, more, next, -⟩ := Cursor.sees_iff.mp seen
  rw [many_eq next seen]
  exact repeated_keeps (·.Firm tokens)
    (fun _ firm seen => patternCase_firm lands firm.toStands seen) more _
    (patternCase_firm lands stands seen)

theorem takeTwice_firm {second : TokenKind} (stands : cursor.Stands tokens)
    (begun : cursor.words ≠ []) (following : cursor.following? = some second) :
    (sequence [take, take] cursor).rest.Firm tokens := by
  obtain ⟨word, more, next⟩ := List.exists_cons_of_ne_nil begun
  have seen : (take cursor).rest.sees second = true := by
    rw [take_eq next]
    exact Cursor.sees_of_kind? (cursor.advanced_kind?.trans following)
  exact (take_past (take_past stands begun).toStands (Cursor.words_ne_nil_of_sees seen)).firm

theorem collection_firm {item : Phrase}
    (items : ∀ cursor : Cursor, cursor.Stands tokens → seesMore cursor = true →
      (item cursor).rest.Firm tokens)
    (closer : TokenKind) (stands : cursor.Stands tokens) (begun : cursor.words ≠ []) :
    (sequence [take, many seesMore item, expect closer (.missingCloser closer)] cursor).rest.Firm
      tokens :=
  expect_firm (repeated_keeps (·.Firm tokens)
    (fun cursor firm more => items cursor firm.toStands more) _ _
    (take_past stands begun).firm) closer

theorem atom_lands (lands : below.Lands tokens) : (atom below).Lands tokens := by
  intro cursor stands
  cases next : cursor.kind? with
  | none =>
      simp only [atom, next]
      trivial
  | some token =>
      have settled := stands.settled
      have begun : cursor.settled.words ≠ [] :=
        Cursor.words_ne_nil_of_sees (Cursor.sees_of_kind? next)
      have first := take_past settled begun
      cases token <;> simp only [atom, next]
      case ident | underscore | int | float | string | bytes | byte => exact first.firm
      case minus =>
        split
        · rename_i negative
          obtain ⟨number, following, -⟩ :=
            (Option.any_eq_true ..).mp ((Bool.and_eq_true ..).mp negative).2
          exact takeTwice_firm settled begun following
        · trivial
      case hash => exact tagName_firm first
      case openParen =>
        split
        · rename_i closed
          exact takeTwice_firm settled begun (eq_of_beq closed)
        · exact expect_firm ((expression_lands lands).required (expression_builds lands.sound) rfl
            first) _
      case openBracket =>
        exact collection_firm (fun _ => listItem_firm lands) .closeBracket settled begun
      case openBrace =>
        exact collection_firm (fun _ => recordItem_firm lands) .closeBrace settled begun
      case pipe => exact patternMatch_firm lands settled (Cursor.sees_of_kind? next)
      all_goals trivial

theorem access_lands (lands : below.Lands tokens) : (access below).Lands tokens := by
  refine ((atom_lands lands).grownIf fun cursor firm seen => ?_).settled
  exact fieldName_firm (take_past firm.toStands (Cursor.words_ne_nil_of_sees seen))

theorem application_lands (lands : below.Lands tokens) : (application below).Lands tokens := by
  refine ((access_lands lands).grownIf fun cursor firm further => ?_).settled
  have seen : cursor.seesArgument = true := ((Bool.and_eq_true ..).mp further).1
  exact (access_lands lands).allowed (access_builds lands.sound) firm.toStands
    (by simp [Cursor.seesExpression, seen])

theorem binary_lands (lands : below.Lands tokens) (power : Nat) :
    (binary below power).Lands tokens := by
  refine ((application_lands lands).grown fun cursor larger firm grows => ?_).settled
  obtain ⟨operator, left, right, next, -, -, rfl⟩ := joining_eq_some grows
  have seen : cursor.settled.sees operator = true := Cursor.sees_of_kind? next
  exact (lands.binary right).required (lands.sound.binary right) rfl
    (take_past firm.toStands.settled (Cursor.words_ne_nil_of_sees seen))

theorem function_lands (lands : below.Lands tokens) : (function below).Lands tokens :=
  ((lands.binary 0).extended fun _ firm seen =>
    takeThen_firm lands.function lands.sound.function rfl firm.toStands seen).settled

theorem lands_ofDepth (tokens : List Token) (depth : Nat) :
    (Level.ofDepth depth).Lands tokens := by
  induction depth with
  | zero => exact ⟨sound_ofDepth 0, fun _ _ => trivial, fun _ _ _ => trivial⟩
  | succ depth inductionHypothesis =>
      exact ⟨sound_ofDepth (depth + 1), function_lands inductionHypothesis,
        binary_lands inductionHypothesis⟩

theorem item_lands (tokens : List Token) : item.Lands tokens := by
  have lands : outermost.Lands tokens := lands_ofDepth tokens depthLimit
  exact ((expression_lands lands).extended fun _ firm seen =>
    takeThen_firm (expression_lands lands) (expression_builds lands.sound) rfl firm.toStands
      seen).settled

theorem sourceItem_firm (stands : cursor.Stands tokens) (inside : cursor.atEnd = false) :
    (sourceItem cursor).rest.Firm tokens := by
  unfold sourceItem
  split
  · rename_i seen
    exact (item_lands tokens).allowed item_builds stands seen
  · exact (reject_past stands inside rfl rfl).firm

theorem sourceFile_stands (stands : cursor.Stands tokens) :
    (sourceFile cursor).rest.Stands tokens := by
  have items : (many (! ·.atEnd) sourceItem cursor).rest.Stands tokens :=
    repeated_keeps (·.Stands tokens)
      (fun _ stands inside => (sourceItem_firm stands (by simpa using inside)).toStands)
      cursor.words cursor stands
  exact items.settled

end Grammar

end Scrapscript
