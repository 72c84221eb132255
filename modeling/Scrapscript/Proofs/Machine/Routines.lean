import Scrapscript.Proofs.Machine.Faithful
import Scrapscript.Proofs.Grammar.Following

/-!
Every routine of the machine realizes its rule of the grammar. The routines that nest realize theirs
with one level less for the calls inside them, so that the proof is an induction on the levels that
are left. The machine therefore ends on every document, with the tree and the errors of its parse.
-/

namespace Scrapscript

namespace Machine

open Scrapscript.Tree (leaves)
open State (Ready)
open Passage (Realizes realizes_take realizes_missing realizes_reject realizes_either realizes_when
  realizes_expect realizes_tokenThen realizes_of_begun)

variable {depth : Nat} {cursor : Cursor} {state : State}

/-- The routines that nest realize the rules of a level. -/
structure Realized (depth : Nat) : Prop where
  function : Routine.function.Realizes depth (Level.ofDepth depth).function
  binary : ∀ power, (Routine.binary power).Realizes depth ((Level.ofDepth depth).binary power)

theorem words_ne_nil_of_seesExpression (seen : cursor.seesExpression = true) :
    cursor.words ≠ [] := by
  intro exhausted
  simp [Cursor.seesExpression, Cursor.seesArgument, Cursor.seesNegative, Cursor.sees, Cursor.kind?,
    exhausted] at seen

variable (realized : Realized depth)

theorem realizes_name : Passage.name.Realizes depth Grammar.name cursor :=
  realizes_take.enclose

include realized

theorem realizes_ascription :
    Routine.ascription.Realizes depth (Grammar.ascription (Level.ofDepth depth)) := by
  apply Routine.realizes_of_code rfl
  exact Program.extended_realizes realized.function (fun cursor => cursor.glance_sees .colon)
    fun cursor seen => realized.function.afterToken seen

theorem realizes_bound (seen : cursor.seesExpression = true) :
    Passage.bound.Realizes depth (Phrase.allow
      ((Grammar.ascription (Level.ofDepth depth)).extended (·.sees .equals) .declaration
        (Phrase.sequence [Phrase.take, Phrase.require (Grammar.ascription (Level.ofDepth depth))
          .missingBoundExpression]))) cursor := by
  refine realizes_of_begun (words_ne_nil_of_seesExpression seen) fun shallow => ?_
  rintro state rfl ready next stack
  have ascription := realizes_ascription realized
  have marked : Steps ⟨Passage.bound next, stack, state⟩ ⟨.call .ascription fun _ =>
      Passage.when (·.sees .equals) (Passage.encloseFrom state.settle.builder.mark .declaration
        (Passage.sequence [Passage.take,
          Passage.require .ascription ⟨.missingBoundExpression, by simp⟩])) next, stack,
        state.settle⟩ := .single rfl
  have settled : Ready depth state.settle := marked.ready ready rfl
  have called := marked.trans (ascription state.settle settled shallow _ stack)
  have same : Grammar.ascription (Level.ofDepth depth) state.cursor.settled =
      Grammar.ascription (Level.ofDepth depth) state.cursor := by
    simp [Grammar.ascription, Rule.settled]
  rw [State.settle_cursor, Phrase.allow, same] at called
  have meets := Grammar.ascription_builds (Grammar.sound_ofDepth depth) state.cursor
  rw [Phrase.allow, Rule.extended]
  cases ended : Grammar.ascription (Level.ofDepth depth) state.cursor with
  | absent rest =>
      rw [ended] at meets
      simp [Outcome.Meets, seen] at meets
  | cut node rest =>
      rw [ended] at meets called
      -- No equals sign is left after a cut.
      have unseen : rest.sees .equals = false := by
        simp [Cursor.sees, Cursor.kind?, meets.2.1]
      refine called.tail ?_
      simp [Step, step, Passage.when, Cursor.glance_sees, unseen, leaves]
  | found node rest =>
      rw [ended] at called
      have extended := called.trans (Passage.extension_steps .declaration (·.sees .equals)
        (·.sees .equals) settled.sound (Steps.ready called ready rfl)
        (fun cursor => cursor.glance_sees .equals) ascription.afterToken next stack)
      cases seen : rest.sees .equals <;> simpa [seen, leaves] using extended

theorem realizes_binding :
    Passage.binding.Realizes depth (Grammar.binding (Level.ofDepth depth)) cursor :=
  realizes_either cursor.glance_seesExpression (realizes_bound realized)
    fun _ => realizes_missing _

omit realized in
theorem grows_onlyIf {condition : Glance → Bool} {holds : Cursor → Bool} {kind : NodeKind}
    {passage : Passage} {phrase : Phrase}
    (agree : ∀ cursor : Cursor, condition cursor.glance = holds cursor)
    (realizes : ∀ cursor, holds cursor = true → passage.Realizes depth phrase cursor) :
    Round.Grows depth (Rule.Growth.onlyIf holds kind phrase)
      fun glance => if condition glance then some (kind, passage) else none := by
  constructor
  · intro cursor stopped
    simp [agree, Grammar.growth_onlyIf_eq_none.mp stopped]
  · intro cursor larger growing
    obtain ⟨seen, rfl⟩ := Rule.Growth.onlyIf_eq_some_iff.mp growing
    exact ⟨passage, by simp [agree, seen], realizes cursor seen⟩

theorem grows_clauses :
    Round.Grows depth (Rule.Growth.onlyIf (·.sees .semicolon) .whereClause
      (Phrase.sequence [Phrase.take, Grammar.binding (Level.ofDepth depth)])) fun glance =>
        if glance.sees .semicolon then
          some (.whereClause, Passage.sequence [Passage.take, Passage.binding]) else none :=
  grows_onlyIf (fun cursor => cursor.glance_sees .semicolon) fun _ seen =>
    realizes_tokenThen seen fun _ => (realizes_binding realized).only

theorem realizes_expression :
    Routine.expression.Realizes depth (Grammar.expression (Level.ofDepth depth)) := by
  apply Routine.realizes_of_code rfl
  exact Program.grown_realizes (realizes_ascription realized).atSettled (fun _ => rfl)
    (grows_clauses realized) (Grammar.clauses_advance (Grammar.sound_ofDepth depth))

theorem realizes_spread :
    Passage.spread.Realizes depth (Grammar.spread (Level.ofDepth depth)) cursor := by
  refine (realizes_take.followedBy (realizes_when ?_ fun seen => ?_).only).enclose
  · exact Cursor.glance_seesExpression _
  · exact realizes_of_begun (words_ne_nil_of_seesExpression seen) (realized.binary 0).allow

omit realized in
theorem realizes_separator (closer : TokenKind) :
    (Passage.separator closer).Realizes depth (Grammar.separator closer) cursor :=
  realizes_when rfl fun _ => realizes_missing _

theorem realizes_listItem :
    Passage.listItem.Realizes depth (Grammar.listItem (Level.ofDepth depth)) cursor := by
  refine realizes_either (cursor.glance_sees .comma) (fun _ => realizes_take) fun _ => ?_
  refine realizes_either (cursor.glance_sees .dotDot) (fun _ => ?_) fun _ => ?_
  · exact (realizes_spread realized).followedBy (realizes_separator _).only
  refine realizes_either cursor.glance_seesExpression (fun seen => ?_) fun _ => ?_
  · refine realizes_of_begun (words_ne_nil_of_seesExpression seen) fun shallow => ?_
    exact ((realizes_ascription realized).allow shallow).followedBy (realizes_separator _).only
  · exact realizes_reject _

theorem realizes_recordField :
    Passage.recordField.Realizes depth (Grammar.recordField (Level.ofDepth depth)) cursor := by
  refine (realizes_name.followedBy (realizes_when ?_ fun seen => ?_).only).enclose
  · exact Cursor.glance_sees _ .equals
  · exact (realizes_ascription realized).afterToken seen

theorem realizes_recordItem :
    Passage.recordItem.Realizes depth (Grammar.recordItem (Level.ofDepth depth)) cursor := by
  refine realizes_either (cursor.glance_sees .comma) (fun _ => realizes_take) fun _ => ?_
  refine realizes_either (cursor.glance_sees .dotDot) (fun _ => ?_) fun _ => ?_
  · exact (realizes_spread realized).followedBy (realizes_separator _).only
  refine realizes_either (cursor.glance_sees .ident) (fun _ => ?_) fun _ => ?_
  · exact (realizes_recordField realized).followedBy (realizes_separator _).only
  · exact realizes_reject _

theorem realizes_guard (seen : cursor.sees .question = true) :
    Passage.guard.Realizes depth (Grammar.guard (Level.ofDepth depth)) cursor := by
  have settledSeen : cursor.settled.sees .question = true := seen
  exact ((realized.binary 0).afterToken settledSeen).enclose

theorem realizes_caseBody :
    Passage.caseBody.Realizes depth (Grammar.caseBody (Level.ofDepth depth)) cursor :=
  realizes_either (cursor.glance_sees .arrow) (fun seen => realized.function.afterToken seen)
    fun _ => realizes_missing _

theorem realizes_patternCase (seen : cursor.sees .pipe = true) :
    Passage.patternCase.Realizes depth (Grammar.patternCase (Level.ofDepth depth)) cursor := by
  have settledSeen : cursor.settled.sees .pipe = true := seen
  refine (realizes_tokenThen settledSeen fun shallow => ?_).enclose
  apply ((realized.binary 0).require (by simpa)).followedBy
  refine (realizes_when ?_ fun seen => ?_).followedBy (realizes_caseBody realized).only
  · exact Cursor.glance_sees _ .question
  · exact realizes_guard realized seen

omit realized in
theorem realizes_fieldName : Passage.fieldName.Realizes depth Grammar.fieldName cursor :=
  realizes_either (cursor.glance_sees .ident) (fun _ => realizes_name)
    fun _ => realizes_missing _

omit realized in
theorem realizes_tagName : Passage.tagName.Realizes depth Grammar.tagName cursor :=
  realizes_either rfl (fun _ => realizes_name) fun _ => realizes_missing _

omit realized in
/-- The mark is set before the opener, and what is placed since is wrapped either way. -/
theorem realizes_parenthesized_of {expression : Phrase}
    (realizes : (Passage.require .expression ⟨.missingExpression, by simp⟩).Realizes depth
      expression (Phrase.take cursor.settled).rest) :
    Passage.parenthesized.Realizes depth (fun cursor =>
      if (Phrase.take cursor.settled).rest.sees .closeParen then
        Phrase.enclose .hole (Phrase.sequence [Phrase.take, Phrase.take]) cursor
      else Phrase.enclose .parenthesized (Phrase.sequence [Phrase.take, expression,
        Phrase.expect .closeParen (.missingCloser .closeParen)]) cursor) cursor := by
  rintro state rfl ready next stack
  have marked : Steps ⟨Passage.parenthesized next, stack, state⟩ ⟨_, stack, state.settle⟩ :=
    .single rfl
  have sound : state.settle.Sound := marked.sound ready.sound
  have taken : Steps ⟨Passage.parenthesized next, stack, state⟩
      ⟨_, stack, state.settle.place (Phrase.take state.cursor.settled)⟩ := marked.tail rfl
  have opened : Ready depth (state.settle.place (Phrase.take state.cursor.settled)) :=
    taken.ready ready rfl
  refine taken.trans (.head rfl ?_)
  cases closed : (Phrase.take state.cursor.settled).rest.sees .closeParen with
  | true =>
      have wrapped := Passage.wrap_steps .hole sound opened realizes_take next stack
      simpa [Cursor.glance_sees, closed, Passage.sequence, Phrase.enclose, Phrase.sequence]
        using wrapped
  | false =>
      have content := realizes.followedBy
        (realizes_expect .closeParen ⟨.missingCloser .closeParen, by simp⟩).only
      have wrapped := Passage.wrap_steps .parenthesized sound opened content next stack
      simpa [Cursor.glance_sees, closed, Passage.sequence, Phrase.enclose, Phrase.sequence]
        using wrapped

theorem realizes_parenthesized (seen : cursor.sees .openParen = true) :
    Passage.parenthesized.Realizes depth (fun cursor =>
      if cursor.following? == some .closeParen then
        Phrase.enclose .hole (Phrase.sequence [Phrase.take, Phrase.take]) cursor
      else Phrase.enclose .parenthesized (Phrase.sequence [Phrase.take,
        Phrase.require (Grammar.expression (Level.ofDepth depth)) .missingExpression,
        Phrase.expect .closeParen (.missingCloser .closeParen)]) cursor) cursor := by
  refine realizes_of_begun (Cursor.words_ne_nil_of_sees seen) fun shallow => ?_
  have settledSeen : cursor.settled.sees .openParen = true := seen
  have opened := Phrase.take_rest settledSeen
  have unchanged : (Phrase.take cursor.settled).rest.tooDeep = false := by simpa [opened]
  refine (realizes_parenthesized_of ((realizes_expression realized).require unchanged)).of_eq ?_
  have closes : cursor.settled.advanced.sees .closeParen =
      (cursor.following? == some .closeParen) := by
    rw [Cursor.sees, Cursor.advanced_kind?]
    rfl
  rw [opened, closes]

omit realized in
theorem realizes_collection {kind : NodeKind} {round : Round} {closer : TokenKind}
    {item : Phrase} {passage : Passage}
    (code : round.code = .asLongAs (·.seesMore) passage)
    (advances : Phrase.Advances Grammar.seesMore item)
    (realizes : ∀ cursor, passage.Realizes depth item cursor) :
    (Passage.collection kind round closer).Realizes depth (Phrase.enclose kind
      (Phrase.sequence [Phrase.take, Phrase.many Grammar.seesMore item,
        Phrase.expect closer (.missingCloser closer)])) cursor := by
  have items := Round.realizes_asLongAs code Cursor.glance_seesMore advances
    (fun cursor _ => realizes cursor)
  exact (realizes_take.followedBy ((items _).followedBy (realizes_expect _ _).only)).enclose

theorem realizes_list :
    (Passage.collection .list .element .closeBracket).Realizes depth (Phrase.enclose .list
      (Phrase.sequence [Phrase.take,
        Phrase.many Grammar.seesMore (Grammar.listItem (Level.ofDepth depth)),
        Phrase.expect .closeBracket (.missingCloser .closeBracket)])) cursor :=
  realizes_collection rfl (Grammar.listItem_advances (Grammar.sound_ofDepth depth))
    fun _ => realizes_listItem realized

theorem realizes_record :
    (Passage.collection .record .entry .closeBrace).Realizes depth (Phrase.enclose .record
      (Phrase.sequence [Phrase.take,
        Phrase.many Grammar.seesMore (Grammar.recordItem (Level.ofDepth depth)),
        Phrase.expect .closeBrace (.missingCloser .closeBrace)])) cursor :=
  realizes_collection rfl (Grammar.recordItem_advances (Grammar.sound_ofDepth depth))
    fun _ => realizes_recordItem realized

theorem realizes_cases :
    Passage.Realizes (.again .case) depth
      (Phrase.many (·.sees .pipe) (Grammar.patternCase (Level.ofDepth depth))) cursor :=
  Round.realizes_asLongAs rfl (fun cursor => cursor.glance_sees .pipe)
    (Grammar.patternCase_advances (Grammar.sound_ofDepth depth))
    (fun _ => realizes_patternCase realized) cursor

/-- The routine for atoms leaves even the blanks alone if it finds none. -/
theorem atomAt_steps (ready : Ready depth state) (stack : List Activation) :
    Steps ⟨Program.atomAt state.cursor.glance, stack, state⟩
      ⟨.done (Grammar.atom (Level.ofDepth depth) state.cursor).isFound, stack,
        if (Grammar.atom (Level.ofDepth depth) state.cursor).isFound then
          state.place (Phrase.allow (Grammar.atom (Level.ofDepth depth)) state.cursor)
        else state⟩ := by
  cases next : state.cursor.kind? with
  | none =>
      simp only [Program.atomAt, Cursor.glance_kind?, next, Phrase.allow, Grammar.atom]
      exact .refl
  | some token =>
      cases token <;>
        simp only [Program.atomAt, Cursor.glance_kind?, Cursor.glance_seesNegative, next,
          Phrase.allow, Grammar.atom]
      case ident | underscore | string | int | float | bytes | byte =>
        exact realizes_take.enclose state rfl ready _ stack
      case minus =>
        by_cases negative : state.cursor.seesNegative = true
        · simp only [negative, if_true]
          exact (realizes_take.followedBy realizes_take.only).enclose state rfl ready _ stack
        · simp only [negative]
          exact .refl
      case hash =>
        exact (realizes_take.followedBy realizes_tagName.only).enclose state rfl ready _ stack
      case openParen =>
        have inside := realizes_parenthesized realized (Cursor.sees_of_kind? next) state rfl ready
          (.done true) stack
        by_cases closed : (state.cursor.following? == some .closeParen) = true
        all_goals
          simp only [closed] at inside ⊢
          exact inside
      case openBracket =>
        exact realizes_list realized state rfl ready _ stack
      case openBrace =>
        exact realizes_record realized state rfl ready _ stack
      case pipe => exact (realizes_cases realized).enclose state rfl ready _ stack
      all_goals exact .refl

theorem atom_steps (ready : Ready depth state) (next : Bool → Program) (stack : List Activation) :
    Steps ⟨.call .atom next, stack, state⟩
      ⟨next (Grammar.atom (Level.ofDepth depth) state.cursor).isFound, stack,
        if (Grammar.atom (Level.ofDepth depth) state.cursor).isFound then
          state.place (Phrase.allow (Grammar.atom (Level.ofDepth depth)) state.cursor)
        else state⟩ := by
  have entered : Steps ⟨.call .atom next, stack, state⟩
      ⟨.look Program.atomAt, ⟨some .atom, next⟩ :: stack, state⟩ := .single rfl
  have looked : Steps ⟨.call .atom next, stack, state⟩
      ⟨Program.atomAt state.cursor.glance, ⟨some .atom, next⟩ :: stack, state⟩ := entered.tail rfl
  exact (looked.trans (atomAt_steps realized ready _)).tail rfl

theorem realizes_atom :
    Routine.atom.RealizesSettled depth (Grammar.atom (Level.ofDepth depth)) := by
  intro state ready _ settled next stack
  have called := atom_steps realized ready next stack
  have meets := Grammar.atom_builds (Grammar.sound_ofDepth depth) state.cursor
  cases ended : Grammar.atom (Level.ofDepth depth) state.cursor with
  | found => simpa [ended, Outcome.isFound] using called
  | cut => exact absurd ended Grammar.atom_ne_cut
  | absent rest =>
      rw [ended] at meets
      obtain ⟨-, rfl⟩ := meets
      have blanks : state.cursor.blanks.tokens = [] := by rw [← settled]; rfl
      simpa [ended, Outcome.isFound, Phrase.allow, blanks, settled, leaves, State.place_nil] using
        called

omit realized in
theorem grows_fields :
    Round.Grows depth (Rule.Growth.onlyIf (·.sees .dot) .fieldAccess
      (Phrase.sequence [Phrase.take, Grammar.fieldName])) fun glance =>
        if glance.sees .dot then
          some (.fieldAccess, Passage.sequence [Passage.take, Passage.fieldName]) else none :=
  grows_onlyIf (fun cursor => cursor.glance_sees .dot) fun _ seen =>
    realizes_tokenThen seen fun _ => realizes_fieldName.only

theorem realizes_access :
    Routine.access.Realizes depth (Grammar.access (Level.ofDepth depth)) := by
  apply Routine.realizes_of_code rfl
  exact Program.grown_realizes (realizes_atom realized) (fun _ => rfl) grows_fields
    Grammar.accessing_advances

theorem grows_arguments :
    Round.Grows depth (Rule.Growth.onlyIf Grammar.seesFurther .application
      (Phrase.allow (Grammar.access (Level.ofDepth depth)))) fun glance =>
        if glance.seesArgument && !glance.seesDeclaration then
          some (.application, Passage.allow .access) else none := by
  refine grows_onlyIf (fun cursor => ?_) fun cursor further => ?_
  · rfl
  · exact realizes_of_begun (words_ne_nil_of_seesExpression
      (Grammar.seesExpression_of_further further)) (realizes_access realized).allow

theorem realizes_application :
    Routine.application.Realizes depth (Grammar.application (Level.ofDepth depth)) := by
  apply Routine.realizes_of_code rfl
  exact Program.grown_realizes (realizes_access realized).atSettled (fun _ => rfl)
    (grows_arguments realized) (Grammar.arguments_advance (Grammar.sound_ofDepth depth))

theorem grows_joining (power : Nat) :
    Round.Grows depth (Grammar.joining (Level.ofDepth depth) power) fun glance =>
      match glance.operatorAt? power with
      | none => none
      | some (operator, right) =>
          some (Grammar.operationKind operator, Passage.sequence [
            Passage.enclose .operator Passage.take,
            Passage.require (.binary right) ⟨.missingOperand, by simp⟩]) := by
  have same (cursor : Cursor) :
      cursor.glance.operatorAt? power = Grammar.operatorAt? power cursor := rfl
  constructor
  · intro cursor stopped
    cases found : Grammar.operatorAt? power cursor with
    | none => simp [same, found]
    | some operator => simp [Grammar.joining, found] at stopped
  · intro cursor larger growing
    obtain ⟨operator, left, right, next, powers, tight, rfl⟩ := Grammar.joining_eq_some growing
    have found := Grammar.operatorAt?_eq_some_iff.mpr ⟨next, left, powers, tight⟩
    refine ⟨_, by simp [same, found]; rfl, ?_⟩
    have seen : cursor.sees operator = true := Cursor.sees_of_kind? next
    refine realizes_of_begun (Cursor.words_ne_nil_of_sees seen) fun shallow => ?_
    refine realizes_take.enclose.followedBy ((realized.binary right).require ?_).only
    have settledSeen : cursor.settled.sees operator = true := seen
    simpa [Phrase.enclose, Phrase.take_rest settledSeen] using shallow

theorem binary_code_realizes (power : Nat) :
    (Routine.binary power).code.Realizes depth (Grammar.binary (Level.ofDepth depth) power) :=
  Program.grown_realizes (realizes_application realized).atSettled (fun _ => rfl)
    (grows_joining realized power)
    (Grammar.joining_advances (Grammar.sound_ofDepth depth) power)

theorem function_code_realizes :
    Routine.function.code.Realizes depth (Grammar.function (Level.ofDepth depth)) :=
  Program.extended_realizes (realized.binary 0) (fun cursor => cursor.glance_sees .arrow)
    fun _ seen => realized.function.afterToken seen

omit realized in
theorem realized_ofDepth (depth : Nat) : Realized depth := by
  induction depth with
  | zero => exact ⟨Routine.realizes_cutOff rfl, fun _ => Routine.realizes_cutOff rfl⟩
  | succ depth inductionHypothesis =>
      exact ⟨Routine.realizes_of_nested rfl (function_code_realizes inductionHypothesis),
        fun power =>
          Routine.realizes_of_nested rfl (binary_code_realizes inductionHypothesis power)⟩

omit realized

theorem item_code_realizes : Routine.item.code.Realizes Grammar.depthLimit Grammar.item := by
  have expression := realizes_expression (realized_ofDepth Grammar.depthLimit)
  exact Program.extended_realizes expression (fun cursor => cursor.glance_sees .equals)
    fun _ seen => expression.afterToken seen

theorem realizes_item : Routine.item.Realizes Grammar.depthLimit Grammar.item :=
  Routine.realizes_of_code rfl item_code_realizes

/-- A parse that uses up words uses up tokens. -/
theorem length_remaining_lt {rest : Cursor} {trees : List Tree} (placed : Placed cursor trees rest)
    (progress : rest.words.length < cursor.words.length) :
    rest.remaining.length < cursor.remaining.length := by
  have tokens := placed.tokens
  have counted := congrArg (List.countP (! ·.isTrivia)) tokens
  rw [List.countP_append, Cursor.countP_remaining, Cursor.countP_remaining] at counted
  have placedWords := List.countP_le_length (p := (! ·.isTrivia)) (l := Tree.tokensOf trees)
  rw [← tokens, List.length_append]
  omega

theorem realizes_sourceItem :
    (Passage.either (·.seesExpression) (Passage.allow .item)
      (Passage.reject fun text => ⟨.unexpected text, by simp⟩)).Realizes Grammar.depthLimit
        Grammar.sourceItem cursor := by
  refine realizes_either cursor.glance_seesExpression (fun seen => ?_) fun _ => ?_
  · exact realizes_of_begun (words_ne_nil_of_seesExpression seen) realizes_item.allow
  · exact realizes_reject _

/-- An item or a rejected word is progress, so that nothing is skipped by force after it. -/
theorem left_sourceItem_ne (inside : cursor.atEnd = false) :
    (Grammar.sourceItem cursor).rest.glance.left ≠ cursor.glance.left :=
  Nat.ne_of_lt (length_remaining_lt (Grammar.sourceItem_yields inside).placed
    (Grammar.length_sourceItem_lt inside))

theorem item_round_ends (ready : Ready Grammar.depthLimit state)
    (inside : state.cursor.atEnd = false) :
    Round.item.Ends state true (state.place (Grammar.sourceItem state.cursor)) := by
  intro stack
  have looked : Steps ⟨Round.item.code, stack, state⟩
      ⟨Passage.either (·.seesExpression) (Passage.allow .item)
        (Passage.reject fun text => ⟨.unexpected text, by simp⟩)
        (.unlessStalled state.cursor.glance.left), stack, state⟩ :=
    .single (by simp [Step, step, Round.code, Program.sourceItem, Cursor.glance_atEnd, inside])
  have placed := looked.trans (realizes_sourceItem state rfl ready _ stack)
  refine placed.tail ?_
  simp [Step, step, Program.unlessStalled, Passage.when, left_sourceItem_ne inside]

theorem item_round_stops (ended : state.cursor.atEnd = true) :
    Round.item.Ends state false state := by
  intro stack
  exact .single (by
    simp [Step, step, Round.code, Program.sourceItem, Cursor.glance_atEnd, ended])

theorem realizes_items :
    Passage.Realizes (.again .item) Grammar.depthLimit
      (Phrase.many (! ·.atEnd) Grammar.sourceItem) cursor := by
  refine Round.realizes_many (fun cursor inside => ?_) (fun state ready inside => ?_)
    (fun state ended => ?_) cursor
  · exact Grammar.length_sourceItem_lt (by simpa using inside)
  · exact item_round_ends ready (by simpa using inside)
  · exact item_round_stops (by simpa using ended)

theorem start_ready (text : Text) : Ready Grammar.depthLimit (start text).state :=
  ⟨start_sound text, Nat.zero_add _⟩

/-- The machine at the end of a document. -/
def ended (text : Text) : Machine :=
  ⟨.done true, [], (Grammar.sourceFile (.ofTokens (Lexer.tokenize text))).rest,
    Builder.empty.add [(Parse.ofText text).tree], 0⟩

theorem ended_step (text : Text) : (ended text).step = none := rfl

/-- The machine ends on every document with its parse. -/
theorem start_steps (text : Text) : Steps (start text) (ended text) := by
  let cursor := Cursor.ofTokens (Lexer.tokenize text)
  let items := Phrase.many (! ·.atEnd) Grammar.sourceItem cursor
  have looped : Steps (start text) ⟨.perform .flush (.perform .finish (.done true)), [],
      (start text).state.place items⟩ :=
    realizes_items (start text).state rfl (start_ready text) _ _
  have flushed : Steps (start text) ⟨.perform .finish (.done true), [],
      (start text).state.place (Grammar.sourceFile cursor)⟩ := by
    refine looped.tail ?_
    simp [Step, step, State.perform?, State.settle, Grammar.sourceFile, Phrase.sequence, items]
  refine flushed.tail ?_
  simp [Step, step, State.perform?, State.place, start, ended, Parse.tree, Parse.ofText,
    Parse.ofTokens, cursor]

/-- Whatever the machine reaches on a document lies on the way to the end. -/
theorem steps_ended {text : Text} {machine : Machine} (reached : Steps (start text) machine) :
    Steps machine (ended text) :=
  (start_steps text).of_halted (ended_step text) reached

end Machine

end Scrapscript
