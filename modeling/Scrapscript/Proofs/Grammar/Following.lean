import Scrapscript.Proofs.Grammar
import Scrapscript.Proofs.Grammar.Splice

/-!
The grammar follows itself into another document: what it finds without errors among some words it
finds among the same words elsewhere, with as much depth left or more.
-/

namespace Scrapscript

open Scrapscript.Tree (leaves hasErrorIn)

/-- A level whose constructs are found in the other document as well. -/
structure Level.Follows (splice : Splice) (below echo : Level) : Prop where
  sound : below.Sound
  echoes : echo.Sound
  function : below.function.Follows splice echo.function
  binary : ∀ power, (below.binary power).Follows splice (echo.binary power)

namespace Grammar

open Scrapscript.Phrase Scrapscript.Rule

variable {splice : Splice} {front later : List Word} {below echo : Level} {cursor other : Cursor}

theorem ascription_follows (follows : below.Follows splice echo) :
    (ascription below).Follows splice (ascription echo) :=
  (follows.function.extended follows.function follows.sound.function (by decide)
    (by decide)).settled

theorem bound_follows (follows : below.Follows splice echo) :
    ((ascription below).extended (·.sees .equals) .declaration
      (sequence [take, require (ascription below) .missingBoundExpression])).Follows splice
        ((ascription echo).extended (·.sees .equals) .declaration
          (sequence [take, require (ascription echo) .missingBoundExpression])) :=
  (ascription_follows follows).extended (ascription_follows follows)
    (ascription_builds follows.sound) (by decide) (by decide)

theorem binding_follows (follows : below.Follows splice echo)
    (tracks : splice.Tracks front cursor other) (clear : Clear later (binding below cursor).rest) :
    (binding below).Follows splice later (binding echo) cursor other := by
  have bound := bound_follows follows
  intro clean words
  cases seen : cursor.seesExpression with
  | false => simp [binding, seen, hasErrorIn_missing] at clean
  | true =>
      simp only [binding, seen, if_true] at clean words clear ⊢
      have builds := bound_builds follows.sound
      have otherSeen := bound.seesExpression builds seen (bound_builds follows.echoes) tracks clear
        clean words
      simp only [otherSeen, if_true]
      exact bound.allowed builds seen tracks clear clean words

/-- Growth under a condition. -/
theorem growsAlong_onlyIf {condition : Cursor → Bool} {kind : NodeKind} {tail echoTail : Phrase}
    (advances : Rule.Advances (Growth.onlyIf condition kind tail))
    (echoes : Rule.Advances (Growth.onlyIf condition kind echoTail))
    (placed : ∀ cursor, condition cursor = true → Placed cursor (tail cursor).trees (tail cursor).rest)
    (clear : ∀ cursor later, condition cursor = true → Clear later cursor)
    (agrees : ∀ front cursor other, splice.Tracks front cursor other → front ≠ [] →
      condition cursor = true → condition other = true)
    (follows : ∀ front later cursor other, splice.Tracks front cursor other →
      condition cursor = true → Clear later (tail cursor).rest →
      tail.Follows splice later echoTail cursor other) :
    GrowsAlong splice (Growth.onlyIf condition kind tail) (Growth.onlyIf condition kind echoTail) := by
  refine ⟨advances, echoes, ?_, ?_, ?_⟩
  · intro cursor larger grows
    obtain ⟨holds, rfl⟩ := Growth.onlyIf_eq_some_iff.mp grows
    exact placed cursor holds
  · intro cursor larger later grows
    obtain ⟨holds, rfl⟩ := Growth.onlyIf_eq_some_iff.mp grows
    exact clear cursor later holds
  · intro front later cursor other larger tracks grows clear clean words
    have kept := tracks.kept (advances cursor larger grows) words
    obtain ⟨holds, rfl⟩ := Growth.onlyIf_eq_some_iff.mp grows
    obtain ⟨trees, otherTracks⟩ := follows front later cursor other tracks holds clear clean words
    exact ⟨⟨kind, echoTail⟩,
      Growth.onlyIf_eq_some_iff.mpr ⟨agrees front cursor other tracks kept holds, rfl⟩, rfl, trees,
      otherTracks⟩

/-- Growth on a token that is not an identifier. -/
theorem growsAlong_onToken {token : TokenKind} {kind : NodeKind} {tail echoTail : Phrase}
    (unlike : token ≠ .ident)
    (advances : Rule.Advances (Growth.onlyIf (·.sees token) kind tail))
    (echoes : Rule.Advances (Growth.onlyIf (·.sees token) kind echoTail))
    (placed : ∀ cursor, cursor.sees token = true →
      Placed cursor (tail cursor).trees (tail cursor).rest)
    (tails : ∀ front later cursor other, splice.Tracks front cursor other →
      cursor.sees token = true → Clear later (tail cursor).rest →
      tail.Follows splice later echoTail cursor other) :
    GrowsAlong splice (Growth.onlyIf (·.sees token) kind tail)
      (Growth.onlyIf (·.sees token) kind echoTail) := by
  refine growsAlong_onlyIf advances echoes placed ?_ ?_ tails
  · intro cursor later seen
    exact clear_of_sees unlike seen
  · intro front cursor other tracks kept seen
    rw [tracks.sees kept, seen]

theorem follows_grownOnToken {rule ruleEcho : Rule} {token : TokenKind} {kind : NodeKind}
    {tail echoTail : Phrase} (unlike : token ≠ .ident)
    (follows : rule.Follows splice ruleEcho)
    (along : GrowsAlong splice (Growth.onlyIf (·.sees token) kind tail)
      (Growth.onlyIf (·.sees token) kind echoTail)) :
    (rule.grown (Growth.onlyIf (·.sees token) kind tail)).Follows splice
      (ruleEcho.grown (Growth.onlyIf (·.sees token) kind echoTail)) := by
  refine follows.grown along ?_
  intro front cursor other tracks stopped _
  rw [growth_onlyIf_eq_none] at stopped ⊢
  refine Bool.eq_false_iff.mpr fun seen => ?_
  simp [tracks.sees_of_other unlike seen] at stopped

theorem clauses_along (follows : below.Follows splice echo) :
    GrowsAlong splice
      (Growth.onlyIf (·.sees .semicolon) .whereClause (sequence [take, binding below]))
      (Growth.onlyIf (·.sees .semicolon) .whereClause (sequence [take, binding echo])) := by
  refine growsAlong_onToken (by decide) (clauses_advance follows.sound)
    (clauses_advance follows.echoes) ?_ ?_
  · intro cursor seen
    exact (yields_takeThen seen (by decide) (binding_yields follows.sound _).only).placed
  · intro front later cursor other tracks seen clear
    simp only [Phrase.sequence, take_rest seen] at clear
    exact follows_takeThen tracks (Cursor.words_ne_nil_of_sees seen)
      (binding_yields follows.sound _).only.placed
      fun between tracks => (binding_follows follows tracks clear).only

theorem expression_follows (follows : below.Follows splice echo) :
    (expression below).Follows splice (expression echo) :=
  (follows_grownOnToken (by decide) (ascription_follows follows) (clauses_along follows)).settled

theorem name_follows (tracks : splice.Tracks front cursor other) (seen : cursor.sees .ident = true) :
    name.Follows splice later name cursor other := by
  have settledSeen : cursor.settled.sees .ident = true := seen
  exact Follows.enclose tracks (length_take_lt settledSeen)
    fun tracks => take_follows tracks (Cursor.words_ne_nil_of_sees settledSeen)

/-- A name under a condition that both documents agree on, or else an error. -/
theorem follows_nameOr {condition : Cursor → Bool} {fault : SyntaxFault}
    (tracks : splice.Tracks front cursor other)
    (named : condition cursor = true → cursor.sees .ident = true)
    (agrees : front ≠ [] → condition other = condition cursor) :
    Follows splice later (fun cursor => if condition cursor then name cursor else missing fault cursor)
      (fun cursor => if condition cursor then name cursor else missing fault cursor) cursor other := by
  intro clean words
  cases holds : condition cursor with
  | false => simp [holds, hasErrorIn_missing] at clean
  | true =>
      have seen := named holds
      simp only [holds, if_true] at clean words ⊢
      have progress : (name cursor).rest.words.length < cursor.words.length := by
        rw [name_rest seen]
        exact Cursor.length_advanced_lt (Cursor.words_ne_nil_of_sees seen)
      simp only [agrees (tracks.kept progress words), holds, if_true]
      exact name_follows tracks seen clean words

theorem fieldName_follows (tracks : splice.Tracks front cursor other) :
    fieldName.Follows splice later fieldName cursor other :=
  follows_nameOr tracks id fun kept => tracks.sees kept .ident

theorem tagName_follows (tracks : splice.Tracks front cursor other) :
    tagName.Follows splice later tagName cursor other := by
  refine follows_nameOr tracks (fun holds => ((Bool.and_eq_true ..).mp holds).1) fun kept => ?_
  rw [tracks.sees kept, tracks.afterLineBreak kept]

/-- Inside a collection a spread has its closer ahead. -/
theorem spread_follows (follows : below.Follows splice echo)
    (tracks : splice.Tracks front cursor other) (seen : cursor.sees .dotDot = true)
    (inside : later ≠ []) (clear : Clear later (spread below cursor).rest) :
    (spread below).Follows splice later (spread echo) cursor other := by
  have settledSeen : cursor.settled.sees .dotDot = true := seen
  have operand := spreadOperand_yields follows.sound
  refine Follows.enclose tracks (length_takeThen_lt settledSeen (operand _).only) fun tracks => ?_
  refine follows_takeThen tracks (Cursor.words_ne_nil_of_sees settledSeen) (operand _).only.placed
    fun between tracks => Follows.only ?_
  simp only [spread, enclose, Phrase.sequence, take_rest settledSeen] at clear
  have allowed (seen : cursor.settled.advanced.seesExpression = true) :
      Clear later (allow (below.binary 0) cursor.settled.advanced).rest := by
    simpa only [when, seen, if_true] using clear
  apply follows_when tracks
  · intro seen clean words
    exact (follows.binary 0).seesExpression (follows.sound.binary 0) seen (follows.echoes.binary 0)
      tracks (allowed seen) clean words
  · intro seen
    exact (follows.binary 0).allowed (follows.sound.binary 0) seen tracks (allowed seen)
  · intro same unseen
    refine Bool.eq_false_iff.mpr fun seen => ?_
    rw [tracks.seesExpression_of_other (same ▸ inside) seen] at unseen
    contradiction

theorem separator_follows (tracks : splice.Tracks front cursor other) (closer : TokenKind)
    (inside : later ≠ []) :
    (separator closer).Follows splice later (separator closer) cursor other := by
  apply follows_when tracks
  · intro _ clean
    simp [hasErrorIn_missing] at clean
  · intro _ clean
    simp [hasErrorIn_missing] at clean
  · intro same unseen
    have kept : front ≠ [] := same ▸ inside
    refine Bool.eq_false_iff.mpr fun seen => ?_
    rw [tracks.sees kept, tracks.sees kept, tracks.sees kept] at seen
    simp only [Bool.and_eq_true, Bool.or_eq_true] at seen
    have expected := seen.2.imp_left (tracks.seesExpression_of_other kept)
    simp only [Bool.and_eq_false_iff, Bool.or_eq_false_iff] at unseen
    rcases unseen with closed | unexpected
    · rw [seen.1] at closed
      contradiction
    · rw [unexpected.1, unexpected.2] at expected
      simp at expected

/-- After an element without a comma no declaration can stand. -/
theorem clear_of_separator {closer : TokenKind} (unlike : closer ≠ .ident)
    (clean : hasErrorIn (separator closer cursor).trees = false) : Clear later cursor := by
  intro declaration
  simp only [seesDeclaration, Bool.and_eq_true] at declaration
  have ident := declaration.1.2
  have next : cursor.kind? = some .ident := eq_of_beq ident
  have expression := Cursor.seesExpression_of_starts next rfl
  have comma : cursor.sees .comma = false := by simp [Cursor.sees, next]
  have closed : cursor.sees closer = false := by
    simpa [Cursor.sees, next] using fun same => unlike same.symm
  simp [separator, when, comma, closed, expression, hasErrorIn_missing] at clean

/-- An element without errors and the separator after it: where the element ends, other words are
still ahead, and no declaration is. -/
theorem separated_parts {phrase : Phrase} {closer : TokenKind} (unlike : closer ≠ .ident)
    (inside : later ≠ [])
    (clean : hasErrorIn (sequence [phrase, separator closer] cursor).trees = false)
    (words : (sequence [phrase, separator closer] cursor).rest.words = later ++ splice.tail) :
    ∃ between, between ≠ [] ∧ hasErrorIn (phrase cursor).trees = false ∧
      (phrase cursor).rest.words = between ++ splice.tail ∧ Clear between (phrase cursor).rest := by
  have placed := (separator_yields closer (phrase cursor).rest).only.placed
  simp only [Phrase.sequence, Tree.hasErrorIn_append, Bool.or_eq_false_iff] at clean words
  obtain ⟨between, split⟩ := splice.exists_between placed.words_suffix words
  exact ⟨between, Splice.between_ne_nil placed.words_suffix words inside split, clean.1, split,
    clear_of_separator unlike clean.2.1⟩

theorem follows_separated {phrase echoPhrase : Phrase} {closer : TokenKind}
    (unlike : closer ≠ .ident) (inside : later ≠ [])
    (follows : ∀ between, between ≠ [] → Clear between (phrase cursor).rest →
      phrase.Follows splice between echoPhrase cursor other) :
    (sequence [phrase, separator closer]).Follows splice later
      (sequence [echoPhrase, separator closer]) cursor other := by
  intro clean words
  obtain ⟨between, begun, -, split, clear⟩ := separated_parts unlike inside clean words
  refine follows_sequence (separator_yields closer _).only.placed ?_ ?_ clean words
  · intro other split' clean _
    obtain rfl : between = other := List.append_cancel_right (split.symm.trans split')
    exact follows between begun clear
  · intro between tracks
    exact (separator_follows tracks closer inside).only

/-- One step through a collection: a comma, a spread, or an element where a condition holds. -/
theorem follows_item (condition : Cursor → Bool) {element echoElement : Phrase}
    {closer : TokenKind} {fault : SyntaxFault} (follows : below.Follows splice echo)
    (tracks : splice.Tracks front cursor other) (unlike : closer ≠ .ident) (inside : later ≠ [])
    (kept : front ≠ [])
    (taken : condition cursor = true → ∀ between, Clear between (element cursor).rest →
      hasErrorIn (element cursor).trees = false →
      (element cursor).rest.words = between ++ splice.tail → condition other = true)
    (elements : condition cursor = true → ∀ between, Clear between (element cursor).rest →
      element.Follows splice between echoElement cursor other) :
    Follows splice later
      (fun cursor =>
        if cursor.sees .comma then take cursor
        else if cursor.sees .dotDot then sequence [spread below, separator closer] cursor
        else if condition cursor then sequence [element, separator closer] cursor
        else reject fault cursor)
      (fun cursor =>
        if cursor.sees .comma then take cursor
        else if cursor.sees .dotDot then sequence [spread echo, separator closer] cursor
        else if condition cursor then sequence [echoElement, separator closer] cursor
        else reject fault cursor) cursor other := by
  intro clean words
  simp only [tracks.sees kept]
  cases comma : cursor.sees .comma with
  | true =>
      simp only [comma, if_true] at clean words ⊢
      exact take_follows tracks (Cursor.words_ne_nil_of_sees comma) clean words
  | false =>
      cases dots : cursor.sees .dotDot with
      | true =>
          simp only [comma, dots, Bool.false_eq_true, if_true, if_false] at clean words ⊢
          exact follows_separated unlike inside (fun between begun clear =>
            spread_follows follows tracks dots begun clear) clean words
      | false =>
          cases holds : condition cursor with
          | true =>
              simp only [comma, dots, holds, Bool.false_eq_true, if_true, if_false] at clean words ⊢
              obtain ⟨between, -, elementClean, split, clear⟩ :=
                separated_parts unlike inside clean words
              simp only [taken holds between clear elementClean split, if_true]
              exact follows_separated unlike inside (fun between _ => elements holds between) clean
                words
          | false => simp [comma, dots, holds, hasErrorIn_reject] at clean

theorem listItem_follows (follows : below.Follows splice echo)
    (tracks : splice.Tracks front cursor other) (more : seesMore cursor = true)
    (inside : later ≠ []) :
    (listItem below).Follows splice later (listItem echo) cursor other := by
  intro clean words
  have kept := tracks.kept (listItem_advances follows.sound cursor more) words
  have elements := ascription_follows follows
  have builds := ascription_builds follows.sound
  refine follows_item (·.seesExpression) follows tracks (by decide) inside kept ?_ ?_ clean words
  · intro seen between clear clean words
    exact elements.seesExpression builds seen (ascription_builds follows.echoes) tracks clear clean
      words
  · intro seen between clear
    exact elements.allowed builds seen tracks clear

theorem recordField_follows (follows : below.Follows splice echo)
    (tracks : splice.Tracks front cursor other) (seen : cursor.sees .ident = true)
    (clear : Clear later (recordField below cursor).rest) :
    (recordField below).Follows splice later (recordField echo) cursor other := by
  have settledSeen : cursor.settled.sees .ident = true := seen
  refine Follows.enclose tracks (length_recordField_lt follows.sound seen) fun tracks => ?_
  refine follows_sequence (fieldValue_yields follows.sound _).only.placed
    (fun between _ _ _ => name_follows tracks settledSeen) fun between tracks => Follows.only ?_
  simp only [recordField, enclose, Phrase.sequence] at clear
  have builds := ascription_builds follows.sound
  refine follows_whenSees tracks (by decide)
    (fun seen => length_takeThen_lt seen (builds.required _ _).only) fun seen => ?_
  refine (ascription_follows follows).tokenThen builds tracks seen ?_
  simpa only [when, seen, if_true, Phrase.sequence] using clear

theorem recordItem_follows (follows : below.Follows splice echo)
    (tracks : splice.Tracks front cursor other) (more : seesMore cursor = true)
    (inside : later ≠ []) :
    (recordItem below).Follows splice later (recordItem echo) cursor other := by
  intro clean words
  have kept := tracks.kept (recordItem_advances follows.sound cursor more) words
  refine follows_item (·.sees .ident) follows tracks (by decide) inside kept ?_ ?_ clean words
  · intro seen between clear clean words
    rw [tracks.sees kept, seen]
  · intro seen between clear
    exact recordField_follows follows tracks seen clear

theorem seesMore_eq (tracks : splice.Tracks front cursor other) (kept : front ≠ []) :
    seesMore other = seesMore cursor := by
  simp only [seesMore, tracks.atEnd kept, tracks.sees kept]

/-- The items of a collection up to its closer. -/
theorem items_follow {item echoItem : Phrase} (tracks : splice.Tracks front cursor other)
    (inside : later ≠ []) (advances : Phrase.Advances seesMore item)
    (echoes : Phrase.Advances seesMore echoItem)
    (placed : ∀ cursor, seesMore cursor = true → Placed cursor (item cursor).trees (item cursor).rest)
    (items : ∀ front later cursor other, splice.Tracks front cursor other →
      seesMore cursor = true → later ≠ [] → item.Follows splice later echoItem cursor other) :
    (many seesMore item).Follows splice later (many seesMore echoItem) cursor other := by
  intro clean words
  obtain ⟨placement, repeated, trees, otherTracks⟩ :=
    (advances.many cursor).follows (fun later _ => later ≠ []) tracks advances placed
      (fun tracks kept more => by rw [seesMore_eq tracks kept, more])
      (fun tracks more begun => items _ _ _ _ tracks more begun)
      (fun _ begun => begun)
      (fun tracks finished => by rw [seesMore_eq tracks inside, finished]) inside clean words
  rw [repeated.many_eq echoes]
  exact ⟨trees, otherTracks⟩

theorem guard_follows (follows : below.Follows splice echo)
    (tracks : splice.Tracks front cursor other) (seen : cursor.sees .question = true)
    (clear : Clear later (guard below cursor).rest) :
    (guard below).Follows splice later (guard echo) cursor other := by
  have settledSeen : cursor.settled.sees .question = true := seen
  have builds := follows.sound.binary 0
  exact Follows.enclose tracks (length_takeThen_lt settledSeen (builds.required _ _).only)
    fun tracks => (follows.binary 0).tokenThen builds tracks settledSeen clear

theorem caseBody_follows (follows : below.Follows splice echo)
    (tracks : splice.Tracks front cursor other) (clear : Clear later (caseBody below cursor).rest) :
    (caseBody below).Follows splice later (caseBody echo) cursor other := by
  intro clean words
  cases seen : cursor.sees .arrow with
  | false => simp [caseBody, seen, hasErrorIn_missing] at clean
  | true =>
      simp only [caseBody, seen, if_true] at clean words clear ⊢
      have builds := follows.sound.function
      have kept := tracks.kept (length_takeThen_lt seen (builds.required _ _).only) words
      simp only [tracks.sees kept, seen, if_true]
      exact follows.function.tokenThen builds tracks seen clear clean words

/-- Before the arrow of a pattern case no declaration can stand. -/
theorem clear_of_caseBody (clean : hasErrorIn (caseBody below cursor).trees = false) :
    Clear later cursor := by
  cases seen : cursor.sees .arrow with
  | true => exact clear_of_sees (by decide) seen
  | false => simp [caseBody, seen, hasErrorIn_missing] at clean

theorem caseEnd_follows (follows : below.Follows splice echo)
    (tracks : splice.Tracks front cursor other)
    (clear : Clear later
      (sequence [when (·.sees .question) (guard below), caseBody below] cursor).rest) :
    (sequence [when (·.sees .question) (guard below), caseBody below]).Follows splice later
      (sequence [when (·.sees .question) (guard echo), caseBody echo]) cursor other := by
  refine follows_sequence (caseBody_yields follows.sound _).only.placed ?_ ?_
  · intro between _ clean _
    rw [sequence_singleton] at clean
    refine follows_whenSees tracks (by decide)
      (fun seen => ?_) fun seen => guard_follows follows tracks seen ?_
    · have settledSeen : cursor.settled.sees .question = true := seen
      exact length_takeThen_lt settledSeen ((follows.sound.binary 0).required _ _).only
    · simp only [when, seen, if_true] at clean
      exact clear_of_caseBody clean
  · intro between tracks
    exact (caseBody_follows follows tracks clear).only

theorem clear_of_caseEnd
    (clean : hasErrorIn (sequence [when (·.sees .question) (guard below), caseBody below]
      cursor).trees = false) : Clear later cursor := by
  cases seen : cursor.sees .question with
  | true => exact clear_of_sees (by decide) seen
  | false =>
      simp only [Phrase.sequence, when, seen, Bool.false_eq_true, if_false,
        Tree.hasErrorIn_append, Bool.or_eq_false_iff] at clean
      exact clear_of_caseBody clean.2.1

theorem patternCase_follows (follows : below.Follows splice echo)
    (tracks : splice.Tracks front cursor other) (seen : cursor.sees .pipe = true)
    (clear : Clear later (patternCase below cursor).rest) :
    (patternCase below).Follows splice later (patternCase echo) cursor other := by
  have settledSeen : cursor.settled.sees .pipe = true := seen
  have sound := follows.sound
  refine Follows.enclose tracks (length_patternCase_lt sound seen) fun tracks => ?_
  refine follows_takeThen tracks (Cursor.words_ne_nil_of_sees settledSeen)
    (caseParts_yields sound _).placed fun between tracks => ?_
  simp only [patternCase, enclose, Phrase.sequence, take_rest settledSeen] at clear
  have ending (cursor : Cursor) :=
    (caseGuard_yields sound cursor).followedBy (caseBody_yields sound _).only
  refine follows_sequence (ending _).placed ?_ ?_
  · intro between _ clean _
    exact (follows.binary 0).required _ tracks (clear_of_caseEnd clean)
  · intro between tracks
    exact caseEnd_follows follows tracks clear

theorem patternMatch_follows (follows : below.Follows splice echo)
    (tracks : splice.Tracks front cursor other)
    (clear : Clear later (many (·.sees .pipe) (patternCase below) cursor).rest) :
    (many (·.sees .pipe) (patternCase below)).Follows splice later
      (many (·.sees .pipe) (patternCase echo)) cursor other := by
  intro clean words
  have advances := patternCase_advances follows.sound
  obtain ⟨placement, repeated, trees, otherTracks⟩ :=
    (advances.many cursor).follows Clear tracks advances
      (fun _ seen => (patternCase_yields follows.sound seen).placed)
      (fun tracks kept seen => by rw [tracks.sees kept, seen])
      (fun tracks seen clear => patternCase_follows follows tracks seen clear)
      (fun seen _ => clear_of_sees (by decide) seen)
      (fun tracks unseen => Bool.eq_false_iff.mpr fun seen => by
        rw [tracks.sees_of_other (by decide) seen] at unseen
        contradiction) clear clean words
  rw [repeated.many_eq (patternCase_advances follows.echoes)]
  exact ⟨trees, otherTracks⟩

theorem build_follows {kind : NodeKind} {phrase echoPhrase : Phrase} {node : Tree} {rest : Cursor}
    (found : build kind phrase cursor = .found node rest) (clean : node.hasError = false)
    (words : rest.words = later ++ splice.tail)
    (follows : phrase.Follows splice later echoPhrase cursor.settled other.settled) :
    ∃ otherRest, build kind echoPhrase other = .found node otherRest ∧
      splice.Tracks later rest otherRest := by
  simp only [build, Outcome.found.injEq] at found
  obtain ⟨rfl, rfl⟩ := found
  simp only [Tree.hasError, Bool.or_eq_false_iff] at clean
  obtain ⟨trees, tracks⟩ := follows clean.2 words
  exact ⟨_, by rw [build, trees], tracks⟩

/-- A closer without errors uses up a word. -/
theorem length_expect_lt {closer : TokenKind} {fault : SyntaxFault}
    (clean : hasErrorIn (expect closer fault cursor).trees = false) :
    (expect closer fault cursor).rest.words.length < cursor.words.length := by
  cases seen : cursor.sees closer with
  | false => simp [expect, seen, hasErrorIn_missing] at clean
  | true => simpa only [expect, seen, if_true] using length_take_lt seen

/-- Before a closer no declaration can stand. -/
theorem clear_of_expect {closer : TokenKind} {fault : SyntaxFault} (unlike : closer ≠ .ident)
    (clean : hasErrorIn (expect closer fault cursor).trees = false) : Clear later cursor := by
  cases seen : cursor.sees closer with
  | false => simp [expect, seen, hasErrorIn_missing] at clean
  | true => exact clear_of_sees unlike seen

/-- A list or a record: the closer is among the words that are kept. -/
theorem collection_follows {item echoItem : Phrase} {opener closer : TokenKind}
    {fault : SyntaxFault} {place : Tree → Bool} (tracks : splice.Tracks front cursor other)
    (seen : cursor.sees opener = true) (proper : closer ≠ .error)
    (yields : ∀ cursor, seesMore cursor = true →
      item.Yields cursor fun row _ => ∀ tree ∈ row, place tree = true)
    (advances : Phrase.Advances seesMore item) (echoes : Phrase.Advances seesMore echoItem)
    (items : ∀ front later cursor other, splice.Tracks front cursor other →
      seesMore cursor = true → later ≠ [] → item.Follows splice later echoItem cursor other) :
    (sequence [take, many seesMore item, expect closer fault]).Follows splice later
      (sequence [take, many seesMore echoItem, expect closer fault]) cursor other := by
  refine follows_takeThen tracks (Cursor.words_ne_nil_of_sees seen)
    ((yields_many yields).followedBy (yields_expect closer fault proper).only).placed
    fun between tracks => ?_
  refine follows_sequence (yields_expect closer fault proper).only.placed ?_ ?_
  · intro between split clean words
    rw [sequence_singleton] at clean words
    have inside : between ≠ [] := by
      intro ended
      have shorter := length_expect_lt clean
      rw [words, split, ended, List.length_append, List.nil_append] at shorter
      omega
    exact items_follow tracks inside advances echoes (fun cursor more => (yields cursor more).placed)
      items
  · intro between tracks
    exact (expect_follows tracks closer fault).only

theorem parenthesized_follows (follows : below.Follows splice echo) {fault closing : SyntaxFault}
    (tracks : splice.Tracks front cursor other) (seen : cursor.sees .openParen = true) :
    (sequence [take, require (expression below) fault, expect .closeParen closing]).Follows splice
      later (sequence [take, require (expression echo) fault, expect .closeParen closing])
      cursor other := by
  have builds := expression_builds follows.sound
  have closed (cursor : Cursor) :
      (sequence [expect .closeParen closing]).Yields cursor fun _ _ => True :=
    ((yields_expect .closeParen closing (by decide)).only).mono fun _ _ _ => trivial
  refine follows_takeThen tracks (Cursor.words_ne_nil_of_sees seen)
    ((builds.required fault _).followedBy (closed _)).placed fun between tracks => ?_
  refine follows_sequence (closed _).placed ?_ ?_
  · intro between _ clean _
    rw [sequence_singleton] at clean
    exact (expression_follows follows).required _ tracks (clear_of_expect (by decide) clean)
  · intro between tracks
    exact (expect_follows tracks _ _).only

/-- A node around two words, which are next to each other in both documents. -/
theorem pair_follows {kind : NodeKind} {first second : TokenKind} {node : Tree} {rest : Cursor}
    (tracks : splice.Tracks front cursor other) (kept : front ≠ [])
    (seen : cursor.settled.sees first = true) (next : cursor.following? = some second)
    (proper : second ≠ .error)
    (found : build kind (sequence [take, take]) cursor = .found node rest)
    (clean : node.hasError = false) (words : rest.words = later ++ splice.tail) :
    other.following? = cursor.following? ∧
      ∃ otherRest, build kind (sequence [take, take]) other = .found node otherRest ∧
        splice.Tracks later rest otherRest := by
  have secondSeen : cursor.settled.advanced.sees second = true := by
    rw [← Cursor.advanced_kind?, ← Cursor.settled_advanced] at next
    exact Cursor.sees_of_kind? next
  constructor
  · obtain ⟨word, more, split, -⟩ := Cursor.sees_iff.mp seen
    obtain ⟨otherWord, last, otherSplit, -⟩ := Cursor.sees_iff.mp secondSeen
    have more_eq : more = otherWord :: last := by
      rwa [Cursor.advanced_eq split] at otherSplit
    have last_eq : last = later ++ splice.tail := by
      simp only [build, Phrase.sequence, take_rest seen, take_rest secondSeen,
        Outcome.found.injEq] at found
      rw [← words, ← found.2, Cursor.advanced_eq otherSplit]
    have front_eq : front = word :: otherWord :: later := by
      have same : front ++ splice.tail = word :: otherWord :: later ++ splice.tail := by
        rw [← tracks.words, ← Cursor.settled_words, split, more_eq, last_eq]
        rfl
      exact List.append_cancel_right same
    have following : cursor.words = word :: otherWord :: last := by
      rw [← Cursor.settled_words, split, more_eq]
    obtain ⟨after, onto, -⟩ := splice.onto_cons otherWord later
    simp [Cursor.following?, tracks.others, front_eq, Splice.onto, onto, following]
  · exact build_follows found clean words (follows_takeThen (tracks.settled kept)
      (Cursor.words_ne_nil_of_sees seen) (yields_take secondSeen proper).only.placed
      fun _ tracks => (take_follows tracks (Cursor.words_ne_nil_of_sees secondSeen)).only)

theorem number_follows {node : Tree} {rest : Cursor} (tracks : splice.Tracks front cursor other)
    (kept : front ≠ []) (negative : cursor.seesNegative = true)
    (found : build .number (sequence [take, take]) cursor = .found node rest)
    (clean : node.hasError = false) (words : rest.words = later ++ splice.tail) :
    other.seesNegative = true ∧
      ∃ otherRest, build .number (sequence [take, take]) other = .found node otherRest ∧
        splice.Tracks later rest otherRest := by
  have sign := negative
  simp only [Cursor.seesNegative, Bool.and_eq_true, Option.any_eq_true] at sign
  obtain ⟨minus, digits, following, isNumber⟩ := sign
  have proper : digits ≠ .error := by
    intro error
    simp [error, TokenKind.isNumber] at isNumber
  obtain ⟨same, built⟩ := pair_follows tracks kept minus following proper found clean words
  refine ⟨?_, built⟩
  rw [Cursor.seesNegative, tracks.sees kept, same]
  exact negative

theorem atom_ne_cut {node : Tree} {rest : Cursor} : atom below cursor ≠ .cut node rest := by
  intro cut
  simp only [atom, build, nothing] at cut
  split at cut
  all_goals first | contradiction | (split at cut <;> contradiction)

theorem atom_follows (follows : below.Follows splice echo) :
    (atom below).Follows splice (atom echo) := by
  have progress {cursor : Cursor} {node : Tree} {rest : Cursor}
      (found : atom below cursor = .found node rest) :
      rest.words.length < cursor.words.length := by
    have meets := atom_builds follows.sound cursor
    rw [found] at meets
    exact meets.2.1
  refine ⟨?_, progress, fun cut => absurd cut atom_ne_cut⟩
  intro front later cursor other node rest tracks found clean words clear
  have kept := tracks.kept (progress found) words
  have settled := tracks.settled kept
  cases next : cursor.kind? with
  | none => simp [atom, next, nothing] at found
  | some token =>
      have otherNext : other.kind? = some token := (tracks.kind? kept).trans next
      have seen : cursor.settled.sees token = true := Cursor.sees_of_kind? next
      have begun := Cursor.words_ne_nil_of_sees seen
      have leaf {kind : NodeKind} (found : build kind take cursor = .found node rest) :=
        build_follows found clean words (take_follows settled begun)
      cases token <;> simp only [atom, next, otherNext] at found ⊢
      case ident | underscore | int | float | string | bytes | byte => exact leaf found
      case minus =>
        cases negative : cursor.seesNegative with
        | false => simp [negative, nothing] at found
        | true =>
            simp only [negative, if_true] at found
            obtain ⟨otherNegative, built⟩ :=
              number_follows tracks kept negative found clean words
            simpa only [otherNegative, if_true] using built
      case hash =>
        exact build_follows found clean words (follows_takeThen settled begun
          (tagName_yields _).only.placed fun _ tracks => (tagName_follows tracks).only)
      case openParen =>
        cases closed : cursor.following? == some .closeParen with
        | true =>
            simp only [closed, if_true] at found
            obtain ⟨same, built⟩ := pair_follows tracks kept seen (eq_of_beq closed) (by decide)
              found clean words
            simpa only [same, closed, if_true] using built
        | false =>
            have otherOpen : (other.following? == some .closeParen) = false := by
              rcases tracks.following? kept with same | none | ident
              · rw [same, closed]
              · rw [none]
                rfl
              · rw [ident]
                rfl
            simp only [closed, otherOpen, Bool.false_eq_true, if_false] at found ⊢
            exact build_follows found clean words (parenthesized_follows follows settled seen)
      case openBracket =>
        exact build_follows found clean words (collection_follows settled seen (by decide)
          (fun _ => listItem_yields follows.sound) (listItem_advances follows.sound)
          (listItem_advances follows.echoes)
          fun _ _ _ _ tracks more inside => listItem_follows follows tracks more inside)
      case openBrace =>
        exact build_follows found clean words (collection_follows settled seen (by decide)
          (fun _ => recordItem_yields follows.sound) (recordItem_advances follows.sound)
          (recordItem_advances follows.echoes)
          fun _ _ _ _ tracks more inside => recordItem_follows follows tracks more inside)
      case pipe =>
        refine build_follows found clean words (patternMatch_follows follows settled ?_)
        simp only [build, Outcome.found.injEq] at found
        rw [found.2]
        exact clear
      all_goals simp [nothing] at found

theorem accessing_along :
    GrowsAlong splice (Growth.onlyIf (·.sees .dot) .fieldAccess (sequence [take, fieldName]))
      (Growth.onlyIf (·.sees .dot) .fieldAccess (sequence [take, fieldName])) := by
  refine growsAlong_onToken (by decide) accessing_advances accessing_advances ?_ ?_
  · intro cursor seen
    exact (yields_takeThen seen (by decide) (fieldName_yields _).only).placed
  · intro front later cursor other tracks seen _
    exact follows_takeThen tracks (Cursor.words_ne_nil_of_sees seen)
      (fieldName_yields _).only.placed fun _ tracks => (fieldName_follows tracks).only

theorem access_follows (follows : below.Follows splice echo) :
    (access below).Follows splice (access echo) :=
  (follows_grownOnToken (by decide) (atom_follows follows) accessing_along).settled

theorem seesExpression_of_further (further : seesFurther cursor = true) :
    cursor.seesExpression = true := by
  simp only [seesFurther, Bool.and_eq_true] at further
  simp [Cursor.seesExpression, further.1]

theorem arguments_along (follows : below.Follows splice echo) :
    GrowsAlong splice (Growth.onlyIf seesFurther .application (allow (access below)))
      (Growth.onlyIf seesFurther .application (allow (access echo))) := by
  have accesses := access_follows follows
  have builds := access_builds follows.sound
  refine growsAlong_onlyIf (arguments_advance follows.sound) (arguments_advance follows.echoes)
    ?_ ?_ ?_ ?_
  · intro cursor further
    exact (builds.allowed (seesExpression_of_further further)).placed
  · intro cursor later further declaration
    simp [seesFurther, declaration] at further
  · intro front cursor other tracks kept further
    simp only [seesFurther, Bool.and_eq_true, Bool.not_eq_true', tracks.seesArgument kept] at further ⊢
    refine ⟨further.1, Bool.eq_false_iff.mpr fun declaration => ?_⟩
    rw [tracks.seesDeclaration_of_other kept declaration] at further
    exact absurd further.2 (by decide)
  · intro front later cursor other tracks further clear
    exact accesses.allowed builds (seesExpression_of_further further) tracks clear

/-- Arguments go on in both documents, since a declaration is seen in one of them only where the
words that are kept end. -/
theorem application_follows (follows : below.Follows splice echo) :
    (application below).Follows splice (application echo) := by
  refine ((access_follows follows).grown (arguments_along follows) ?_).settled
  intro front cursor other tracks stopped clear
  have ended : seesFurther cursor = false := growth_onlyIf_eq_none.mp stopped
  apply growth_onlyIf_eq_none.mpr
  by_cases kept : front = []
  · exact tracks.seesFurther_ended kept
  · have undeclared : seesDeclaration cursor = false :=
      Bool.eq_false_iff.mpr fun declaration => kept (clear declaration)
    simp only [seesFurther, undeclared, Bool.not_false, Bool.and_true] at ended
    simp [seesFurther, tracks.seesArgument kept, ended]

/-- The operator between two operands, in both documents. -/
theorem operator_follows {operator : TokenKind} {right : Nat} {fault : SyntaxFault}
    (follows : below.Follows splice echo) (tracks : splice.Tracks front cursor other)
    (next : cursor.kind? = some operator)
    (clear : Clear later
      (sequence [enclose .operator take, require (below.binary right) fault] cursor).rest) :
    (sequence [enclose .operator take, require (below.binary right) fault]).Follows splice later
      (sequence [enclose .operator take, require (echo.binary right) fault]) cursor other := by
  have seen : cursor.settled.sees operator = true := Cursor.sees_of_kind? next
  refine follows_sequence ((follows.sound.binary right).required fault _).only.placed ?_ ?_
  · intro between _ _ _
    exact Follows.enclose tracks (length_take_lt seen)
      fun tracks => take_follows tracks (Cursor.words_ne_nil_of_sees seen)
  · intro between tracks
    exact ((follows.binary right).required fault tracks clear).only

/-- Operations may be joined in the other document by operators that bind less tightly. -/
theorem joining_along (follows : below.Follows splice echo) {power looser : Nat}
    (weaker : looser ≤ power) :
    GrowsAlong splice (joining below power) (joining echo looser) := by
  refine ⟨joining_advances follows.sound power, joining_advances follows.echoes looser, ?_, ?_, ?_⟩
  · intro cursor larger grows
    exact ((joining_grows follows.sound power).yields cursor larger grows).placed
  · intro cursor larger later grows
    obtain ⟨operator, left, right, next, powers, -, -⟩ := joining_eq_some grows
    refine clear_of_sees ?_ (Cursor.sees_of_kind? next)
    intro ident
    simp [ident, powers?] at powers
  · intro front later cursor other larger tracks grows clear clean words
    have kept := tracks.kept (joining_advances follows.sound power cursor larger grows) words
    obtain ⟨operator, left, right, next, powers, tight, rfl⟩ := joining_eq_some grows
    obtain ⟨trees, otherTracks⟩ := operator_follows follows tracks next clear clean words
    have found : operatorAt? looser other = some (operator, right) :=
      operatorAt?_eq_some_iff.mpr
        ⟨(tracks.kind? kept).trans next, left, powers, Nat.le_trans weaker tight⟩
    exact ⟨⟨operationKind operator,
        sequence [enclose .operator take, require (echo.binary right) .missingOperand]⟩,
      by rw [joining, found], rfl, trees, otherTracks⟩

theorem binary_follows (follows : below.Follows splice echo) (power : Nat) :
    (binary below power).Follows splice (binary echo power) := by
  refine ((application_follows follows).grown (joining_along follows (Nat.le_refl _)) ?_).settled
  intro front cursor other tracks stopped _
  cases otherGrows : joining echo power other with
  | none => rfl
  | some larger =>
      obtain ⟨operator, left, right, next, powers, tight, -⟩ := joining_eq_some otherGrows
      have unlike : operator ≠ .ident := by
        intro ident
        simp [ident, powers?] at powers
      have seen := tracks.sees_of_other unlike (Cursor.sees_of_kind? next)
      have found := operatorAt?_eq_some_iff.mpr ⟨eq_of_beq seen, left, powers, tight⟩
      rw [joining, found] at stopped
      contradiction

theorem function_follows (follows : below.Follows splice echo) :
    (function below).Follows splice (function echo) :=
  ((follows.binary 0).extended follows.function follows.sound.function (by decide)
    (by decide)).settled

theorem cutOff_follows {rule : Rule} : cutOff.Follows splice rule := by
  refine ⟨?_, ?_, ?_⟩
  · intro front later cursor other node rest tracks found
    exact nomatch found
  · intro cursor node rest found
    exact nomatch found
  · intro cursor node rest cut
    simp only [cutOff, Outcome.cut.injEq] at cut
    rw [← cut.1]
    rfl

/-- With as much depth left or more, each level finds in the other document what it finds here. -/
theorem follows_ofDepth {depth more : Nat} (enough : depth ≤ more) :
    (Level.ofDepth depth).Follows splice (Level.ofDepth more) := by
  induction depth generalizing more with
  | zero =>
      exact ⟨sound_ofDepth 0, sound_ofDepth more, cutOff_follows, fun _ => cutOff_follows⟩
  | succ depth inductionHypothesis =>
      cases more with
      | zero => omega
      | succ more =>
          have follows := inductionHypothesis (Nat.le_of_succ_le_succ enough)
          exact ⟨sound_ofDepth _, sound_ofDepth _, function_follows follows, binary_follows follows⟩

theorem item_follows : item.Follows splice item := by
  have follows : outermost.Follows splice outermost := follows_ofDepth (Nat.le_refl _)
  exact ((expression_follows follows).extended (expression_follows follows)
    (expression_builds follows.sound) (by decide) (by decide)).settled

end Grammar

end Scrapscript
