import Scrapscript.Proofs.Machine
import Scrapscript.Proofs.Grammar
import Scrapscript.Proofs.Grammar.Loop

/-!
The machine does what the grammar says. A passage of the program *realizes* a phrase if the machine
goes through it by placing just what the phrase places, whatever comes after and whatever calls are
being run; a routine realizes a rule in the same way, and answers whether the rule has found a node.
-/

namespace Scrapscript

open Scrapscript.Tree (leaves)

namespace Cursor

variable (cursor : Cursor)

theorem glance_kind? : cursor.glance.kind? = cursor.kind? := rfl

theorem glance_seesNegative : cursor.glance.seesNegative = cursor.seesNegative := rfl

theorem glance_sees (kind : TokenKind) : cursor.glance.sees kind = cursor.sees kind := rfl

theorem glance_seesExpression : cursor.glance.seesExpression = cursor.seesExpression := rfl

theorem glance_atEnd : cursor.glance.atEnd = cursor.atEnd := by
  cases next : cursor.words <;> simp [glance, Glance.atEnd, kind?, atEnd, next]

theorem glance_seesMore : cursor.glance.seesMore = Grammar.seesMore cursor := by
  simp only [Glance.seesMore, Grammar.seesMore, glance_atEnd, glance_sees]

end Cursor

/-- Whether a rule has found its node. -/
def Outcome.isFound : Outcome → Bool
  | found _ _ => true
  | absent _ | cut _ _ => false

theorem Phrase.allow_settled (rule : Rule) (cursor : Cursor) :
    allow (Rule.settled rule) cursor =
      ⟨leaves cursor.blanks.tokens ++ (allow rule cursor.settled).trees,
        (allow rule cursor.settled).rest⟩ := by
  cases ended : rule cursor.settled <;> simp [allow, Rule.settled, ended, leaves]

namespace Machine

variable {depth : Nat} {cursor : Cursor} {state : State} {kind : NodeKind}

namespace State

@[simp]
theorem place_place (state : State) (first second : Placement) :
    (state.place first).place second = state.place ⟨first.trees ++ second.trees, second.rest⟩ := by
  simp [place]

@[simp]
theorem place_cursor (state : State) (placement : Placement) :
    (state.place placement).cursor = placement.rest := rfl

@[simp]
theorem settle_cursor (state : State) : state.settle.cursor = state.cursor.settled := rfl

@[simp]
theorem settle_place (state : State) (placement : Placement) :
    state.settle.place placement =
      state.place ⟨leaves state.cursor.blanks.tokens ++ placement.trees, placement.rest⟩ :=
  place_place state _ placement

theorem place_nil (state : State) : state.place ⟨[], state.cursor⟩ = state := by
  simp [place]

/-- The state is in order, with room for `depth` further levels of nesting. -/
structure Ready (depth : Nat) (state : State) : Prop where
  sound : state.Sound
  room : state.depth + depth = Grammar.depthLimit

end State

open State (Ready)

theorem Steps.ready {machine next : Machine} (run : Steps machine next)
    (ready : Ready depth machine.state) (same : next.state.depth = machine.state.depth) :
    Ready depth next.state :=
  ⟨run.sound ready.sound, by rw [same, ready.room]⟩

/-- The machine goes through a passage by placing what a phrase places. -/
def Passage.Realizes (passage : Passage) (depth : Nat) (phrase : Phrase) (cursor : Cursor) : Prop :=
  ∀ state : State, state.cursor = cursor → Ready depth state → ∀ next stack,
    Steps ⟨passage next, stack, state⟩ ⟨next, stack, state.place (phrase cursor)⟩

/-- A call of a routine places what a rule finds, and answers whether it found a node. -/
def Routine.Realizes (routine : Routine) (depth : Nat) (rule : Rule) : Prop :=
  ∀ state : State, Ready depth state → state.cursor.tooDeep = false → ∀ next stack,
    Steps ⟨.call routine next, stack, state⟩
      ⟨next (rule state.cursor).isFound, stack, state.place (Phrase.allow rule state.cursor)⟩

/-- The same of a call right after the blanks. -/
def Routine.RealizesSettled (routine : Routine) (depth : Nat) (rule : Rule) : Prop :=
  ∀ state : State, Ready depth state → state.cursor.tooDeep = false →
    state.cursor.settled = state.cursor → ∀ next stack,
    Steps ⟨.call routine next, stack, state⟩
      ⟨next (rule state.cursor).isFound, stack, state.place (Phrase.allow rule state.cursor)⟩

def Program.Realizes (program : Program) (depth : Nat) (rule : Rule) : Prop :=
  ∀ state : State, Ready depth state → state.cursor.tooDeep = false → ∀ stack,
    Steps ⟨program, stack, state⟩
      ⟨.done (rule state.cursor).isFound, stack, state.place (Phrase.allow rule state.cursor)⟩

namespace Passage

variable {passage other : Passage} {passages : List Passage} {phrase : Phrase}
  {phrases : List Phrase}

theorem realizes_take : take.Realizes depth Phrase.take cursor := by
  rintro state rfl - next stack
  exact .single rfl

theorem realizes_missing (complaint : Complaint) :
    (missing complaint).Realizes depth (Phrase.missing complaint.fault) cursor := by
  rintro state rfl - next stack
  exact .single rfl

theorem realizes_reject (complaint : Text → Complaint) :
    (reject complaint).Realizes depth
      (Phrase.reject (complaint cursor.nextText).fault) cursor := by
  rintro state rfl - next stack
  exact .single rfl

/-- Only what a phrase does at the cursor matters. -/
theorem Realizes.of_eq {same : Phrase} (realizes : passage.Realizes depth phrase cursor)
    (equal : same cursor = phrase cursor) : passage.Realizes depth same cursor := by
  intro state here ready next stack
  rw [equal]
  exact realizes state here ready next stack

/-- Where there is a word, the parse is not cut off. -/
theorem realizes_of_begun (begun : cursor.words ≠ [])
    (realizes : cursor.tooDeep = false → passage.Realizes depth phrase cursor) :
    passage.Realizes depth phrase cursor := by
  rintro state rfl ready next stack
  exact realizes (ready.sound.shallow begun) state rfl ready next stack

theorem realizes_nil : (sequence []).Realizes depth (Phrase.sequence []) cursor := by
  rintro state rfl - next stack
  rw [Phrase.sequence, State.place_nil]
  exact .refl

theorem Realizes.followedBy (realizes : passage.Realizes depth phrase cursor)
    (others : (sequence passages).Realizes depth (Phrase.sequence phrases) (phrase cursor).rest) :
    (sequence (passage :: passages)).Realizes depth (Phrase.sequence (phrase :: phrases))
      cursor := by
  rintro state rfl ready next stack
  have first := realizes state rfl ready (sequence passages next) stack
  have second := others _ rfl (first.ready ready rfl) next stack
  rw [State.place_place] at second
  exact first.trans second

theorem Realizes.only (realizes : passage.Realizes depth phrase cursor) :
    (sequence [passage]).Realizes depth (Phrase.sequence [phrase]) cursor :=
  realizes.followedBy realizes_nil

theorem realizes_tokenThen {token : TokenKind} (seen : cursor.sees token = true)
    (others : cursor.tooDeep = false →
      (sequence passages).Realizes depth (Phrase.sequence phrases) cursor.advanced) :
    (sequence (take :: passages)).Realizes depth (Phrase.sequence (Phrase.take :: phrases))
      cursor := by
  refine realizes_of_begun (Cursor.words_ne_nil_of_sees seen) fun shallow => ?_
  apply realizes_take.followedBy
  rw [Phrase.take_rest seen]
  exact others shallow

theorem realizes_when {condition : Glance → Bool} {holds : Cursor → Bool}
    (agree : condition cursor.glance = holds cursor)
    (realizes : holds cursor = true → passage.Realizes depth phrase cursor) :
    (when condition passage).Realizes depth (Phrase.when holds phrase) cursor := by
  rintro state rfl ready next stack
  have looked : Steps ⟨when condition passage next, stack, state⟩
      ⟨if condition state.cursor.glance then passage next else next, stack, state⟩ := .single rfl
  rw [agree] at looked
  cases seen : holds state.cursor with
  | true =>
      simp only [seen, if_true] at looked
      simp only [Phrase.when, seen, if_true]
      exact looked.trans (realizes seen state rfl ready next stack)
  | false =>
      simp only [seen] at looked
      simp only [Phrase.when, seen]
      rw [if_neg Bool.false_ne_true, State.place_nil]
      exact looked

theorem realizes_either {condition : Glance → Bool} {holds : Cursor → Bool} {otherPhrase : Phrase}
    (agree : condition cursor.glance = holds cursor)
    (realizes : holds cursor = true → passage.Realizes depth phrase cursor)
    (otherwise : holds cursor = false → other.Realizes depth otherPhrase cursor) :
    (either condition passage other).Realizes depth
      (fun cursor => if holds cursor then phrase cursor else otherPhrase cursor) cursor := by
  rintro state rfl ready next stack
  have looked : Steps ⟨either condition passage other next, stack, state⟩
      ⟨if condition state.cursor.glance then passage next else other next, stack, state⟩ :=
    .single rfl
  rw [agree] at looked
  cases seen : holds state.cursor with
  | true =>
      simp only [seen, if_true] at looked ⊢
      exact looked.trans (realizes seen state rfl ready next stack)
  | false =>
      simp only [seen, Bool.false_eq_true, if_false] at looked ⊢
      exact looked.trans (otherwise seen state rfl ready next stack)

theorem Realizes.enclose (realizes : passage.Realizes depth phrase cursor.settled) :
    (enclose kind passage).Realizes depth (Phrase.enclose kind phrase) cursor := by
  rintro state rfl ready next stack
  let begun : State := { state.settle with builder := state.settle.builder.start kind }
  have started : Steps ⟨Passage.enclose kind passage next, stack, state⟩
      ⟨passage (.perform .finish next), stack, begun⟩ := .single rfl
  have inside := realizes begun rfl (started.ready ready rfl) (.perform .finish next) stack
  refine started.trans (inside.tail ?_)
  simp [Step, step, State.perform?, begun, State.place, State.settle, Phrase.enclose,
    Phrase.blanks]

theorem realizes_expect (token : TokenKind) (complaint : Complaint) :
    (expect token complaint).Realizes depth (Phrase.expect token complaint.fault) cursor :=
  realizes_either (cursor.glance_sees token) (fun _ => realizes_take)
    fun _ => realizes_missing complaint

/-- A node begun at a mark takes in what a passage places. -/
theorem encloseFrom_steps {mark : Nat} {begun finished : Builder} (ready : Ready depth state)
    (realizes : passage.Realizes depth phrase state.cursor)
    (started : state.builder.startAt? mark kind = some begun)
    (ended : (begun.add (phrase state.cursor).trees).finish? = some finished) (next : Program)
    (stack : List Activation) :
    Steps ⟨encloseFrom mark kind passage next, stack, state⟩
      ⟨next, stack, { state with cursor := (phrase state.cursor).rest, builder := finished }⟩ := by
  have first : Steps ⟨encloseFrom mark kind passage next, stack, state⟩
      ⟨passage (.perform .finish next), stack, { state with builder := begun }⟩ :=
    .single (by simp [Step, step, encloseFrom, State.perform?, started])
  have inside := realizes { state with builder := begun } rfl (first.ready ready rfl)
    (.perform .finish next) stack
  refine first.trans (inside.tail ?_)
  simp [Step, step, State.perform?, State.place, ended]

/-- A node begun at the mark before some trees wraps them. -/
theorem wrap_steps {placed : Placement} (kind : NodeKind) (sound : state.Sound)
    (ready : Ready depth (state.place placed))
    (realizes : passage.Realizes depth phrase placed.rest) (next : Program)
    (stack : List Activation) :
    Steps ⟨encloseFrom state.builder.mark kind passage next, stack, state.place placed⟩
      ⟨next, stack, state.place
        ⟨[.node kind (placed.trees ++ (phrase placed.rest).trees)], (phrase placed.rest).rest⟩⟩ :=
  encloseFrom_steps ready realizes (sound.valid.startAt?_mark kind placed.trees)
    (by rw [Builder.add_add, Builder.finish?_start]; rfl) next stack

/-- A larger node around the one just placed, if a condition holds after it. -/
theorem extension_steps {node : Tree} {rest : Cursor} (kind : NodeKind)
    (condition : Glance → Bool) (holds : Cursor → Bool) (sound : state.Sound)
    (ready : Ready depth (state.place ⟨[node], rest⟩))
    (agree : ∀ cursor : Cursor, condition cursor.glance = holds cursor)
    (realizes : holds rest = true → passage.Realizes depth phrase rest) (next : Program)
    (stack : List Activation) :
    Steps ⟨when condition (encloseFrom state.builder.mark kind passage) next, stack,
        state.place ⟨[node], rest⟩⟩
      ⟨next, stack, state.place (if holds rest then
        ⟨[.node kind (node :: (phrase rest).trees)], (phrase rest).rest⟩ else ⟨[node], rest⟩)⟩ := by
  have looked : Steps ⟨when condition (encloseFrom state.builder.mark kind passage) next, stack,
        state.place ⟨[node], rest⟩⟩
      ⟨if holds rest then encloseFrom state.builder.mark kind passage next else next, stack,
        state.place ⟨[node], rest⟩⟩ :=
    .single (by simp [Step, step, when, agree])
  cases seen : holds rest with
  | false => simpa [seen] using looked
  | true =>
      rw [seen, if_pos rfl] at looked
      exact looked.trans (wrap_steps kind sound ready (realizes seen) next stack)

end Passage

namespace Routine

variable {routine : Routine} {rule : Rule} {complaint : Complaint}

theorem Realizes.atSettled (realizes : routine.Realizes depth rule) :
    routine.RealizesSettled depth rule :=
  fun state ready shallow _ => realizes state ready shallow

theorem realizes_of_code (plain : routine.nests = false)
    (code : routine.code.Realizes depth rule) : routine.Realizes depth rule := by
  intro state ready shallow next stack
  have entered : Steps ⟨.call routine next, stack, state⟩
      ⟨routine.code, ⟨some routine, next⟩ :: stack, state⟩ :=
    .single (by simp [Step, step, enter, plain])
  refine (entered.trans (code state ready shallow _)).tail ?_
  simp [Step, step, leave, Activation.nests, plain]

/-- A call that nests leaves one level less to the calls inside it. -/
theorem realizes_of_nested (nests : routine.nests = true)
    (code : routine.code.Realizes depth rule) : routine.Realizes (depth + 1) rule := by
  intro state ready shallow next stack
  have room := ready.room
  have entered : Steps ⟨.call routine next, stack, state⟩
      ⟨routine.code, ⟨some routine, next⟩ :: stack, state.deeper⟩ :=
    .single (by
      simp only [Step, step, enter, nests, shallow, if_true, Option.some.injEq]
      rw [if_neg Bool.false_ne_true, if_neg (by omega)])
  have ready : Ready depth state.deeper := by
    refine ⟨entered.sound ready.sound, ?_⟩
    simp only [State.deeper]
    omega
  refine (entered.trans (code state.deeper ready shallow _)).tail ?_
  simp [Step, step, leave, Activation.nests, nests, State.deeper, State.shallower, State.place]

/-- A call at the limit is refused. -/
theorem realizes_cutOff (nests : routine.nests = true) : routine.Realizes 0 Rule.cutOff := by
  intro state ready shallow next stack
  have full := ready.room
  refine .single ?_
  simp only [Step, step, enter, nests, shallow, if_true]
  rw [if_neg Bool.false_ne_true, if_pos (by omega)]
  rfl

theorem Realizes.require (realizes : routine.Realizes depth rule)
    (shallow : cursor.tooDeep = false) :
    (Passage.require routine complaint).Realizes depth
      (Phrase.require rule complaint.fault) cursor := by
  rintro state rfl ready next stack
  have called := realizes state ready shallow
    (fun found => if found then next else .perform (.missing complaint) next) stack
  cases ended : rule state.cursor with
  | found node rest =>
      simpa [Passage.require, Phrase.require, Phrase.allow, Outcome.isFound, ended] using called
  | absent | cut =>
      refine called.tail ?_
      simp [Step, step, State.perform?, Phrase.require, Phrase.allow, Outcome.isFound, ended]

/-- A token and what must follow it. -/
theorem Realizes.afterToken {token : TokenKind} (realizes : routine.Realizes depth rule)
    (seen : cursor.sees token = true) :
    (Passage.sequence [Passage.take, Passage.require routine complaint]).Realizes depth
      (Phrase.sequence [Phrase.take, Phrase.require rule complaint.fault]) cursor :=
  Passage.realizes_tokenThen seen fun shallow => (realizes.require (by simpa)).only

theorem Realizes.allow (realizes : routine.Realizes depth rule)
    (shallow : cursor.tooDeep = false) :
    (Passage.allow routine).Realizes depth (Phrase.allow rule) cursor := by
  rintro state rfl ready next stack
  exact realizes state ready shallow (fun _ => next) stack

end Routine

namespace Round

/-- A round comes to its end with an answer. -/
def Ends (round : Round) (state : State) (more : Bool) (after : State) : Prop :=
  ∀ stack, Steps ⟨round.code, stack, state⟩ ⟨.done more, stack, after⟩

variable {round : Round} {passage : Passage} {phrase : Phrase}

theorem Ends.again {more : Bool} {after : State} (ends : round.Ends state more after)
    (next : Program) (stack : List Activation) :
    Steps ⟨.again round next, stack, state⟩
      ⟨if more then .again round next else next, stack, after⟩ := by
  have entered : Steps ⟨.again round next, stack, state⟩
      ⟨round.code, ⟨none, fun more => if more then .again round next else next⟩ :: stack, state⟩ :=
    .single rfl
  exact (entered.trans (ends _)).tail rfl

/-- A loop goes round as often as a phrase is repeated. -/
theorem realizes_many {holds : Cursor → Bool} (advances : Phrase.Advances holds phrase)
    (goes : ∀ state : State, Ready depth state → holds state.cursor = true →
      round.Ends state true (state.place (phrase state.cursor)))
    (stops : ∀ state : State, holds state.cursor = false → round.Ends state false state)
    (cursor : Cursor) :
    Passage.Realizes (.again round) depth (Phrase.many holds phrase) cursor := by
  have repeated := advances.many cursor
  generalize Phrase.many holds phrase cursor = placement at repeated
  suffices loop : ∀ state : State, state.cursor = cursor → Ready depth state → ∀ next stack,
      Steps ⟨.again round next, stack, state⟩ ⟨next, stack, state.place placement⟩ by
    intro state here ready next stack
    rw [repeated.many_eq advances]
    exact loop state here ready next stack
  induction repeated with
  | done ended =>
      rintro state rfl - next stack
      rw [State.place_nil]
      exact (stops state ended).again next stack
  | round more later inductionHypothesis =>
      rintro state rfl ready next stack
      have first := (goes state ready more).again next stack
      have others := inductionHypothesis _ rfl (first.ready ready rfl) next stack
      rw [State.place_place] at others
      exact first.trans others

section

variable {condition : Glance → Bool} {holds : Cursor → Bool}
  (code : round.code = .asLongAs condition passage)
  (agree : ∀ cursor : Cursor, condition cursor.glance = holds cursor)

include code agree

theorem ends_of_holds (ready : Ready depth state) (seen : holds state.cursor = true)
    (realizes : passage.Realizes depth phrase state.cursor) :
    round.Ends state true (state.place (phrase state.cursor)) := by
  intro stack
  have looked : Steps ⟨round.code, stack, state⟩ ⟨passage (.done true), stack, state⟩ :=
    .single (by simp [code, Step, step, Program.asLongAs, agree, seen])
  exact looked.trans (realizes state rfl ready _ stack)

theorem ends_of_not (unseen : holds state.cursor = false) : round.Ends state false state := by
  intro stack
  exact .single (by simp [code, Step, step, Program.asLongAs, agree, unseen])

theorem realizes_asLongAs (advances : Phrase.Advances holds phrase)
    (realizes : ∀ cursor, holds cursor = true → passage.Realizes depth phrase cursor)
    (cursor : Cursor) :
    Passage.Realizes (.again round) depth (Phrase.many holds phrase) cursor :=
  realizes_many advances
    (fun _ ready seen => ends_of_holds code agree ready seen (realizes _ seen))
    (fun _ unseen => ends_of_not code agree unseen) cursor

end

/-- The larger nodes that a program may begin are those of the grammar. -/
structure Grows (depth : Nat) (growth : Cursor → Option Rule.Growth)
    (choices : Glance → Option (NodeKind × Passage)) : Prop where
  ended : ∀ cursor : Cursor, growth cursor = none → choices cursor.glance = none
  larger : ∀ (cursor : Cursor) (larger : Rule.Growth), growth cursor = some larger →
    ∃ passage : Passage, choices cursor.glance = some (larger.kind, passage) ∧
      passage.Realizes depth larger.tail cursor

section

variable {growth : Cursor → Option Rule.Growth} {choices : Glance → Option (NodeKind × Passage)}
  {mark : Nat} (code : round.code = .growing mark choices) (grows : Grows depth growth choices)

include code grows

theorem ends_growing {larger : Rule.Growth} {begun finished : Builder}
    (growing : growth state.cursor = some larger) (ready : Ready depth state)
    (started : state.builder.startAt? mark larger.kind = some begun)
    (ended : (begun.add (larger.tail state.cursor).trees).finish? = some finished) :
    round.Ends state true
      { state with cursor := (larger.tail state.cursor).rest, builder := finished } := by
  obtain ⟨passage, chosen, realizes⟩ := grows.larger _ larger growing
  intro stack
  have looked : Steps ⟨round.code, stack, state⟩
      ⟨Passage.encloseFrom mark larger.kind passage (.done true), stack, state⟩ :=
    .single (by simp [code, Step, step, Program.growing, chosen])
  exact looked.trans (Passage.encloseFrom_steps ready realizes started ended _ stack)

theorem ends_grown (stopped : growth state.cursor = none) : round.Ends state false state := by
  intro stack
  exact .single (by simp [code, Step, step, Program.growing, grows.ended _ stopped])

end

/-- A loop that wraps the node after a mark goes on as the node grows. -/
theorem grow_steps {growth : Cursor → Option Rule.Growth}
    {choices : Glance → Option (NodeKind × Passage)} (sound : state.Sound)
    (code : round.code = .growing state.builder.mark choices)
    (grows : Grows depth growth choices) (advances : Rule.Advances growth) (rounds : List Word)
    (node : Tree) (cursor : Cursor) (enough : cursor.words.length ≤ rounds.length)
    (ready : Ready depth (state.place ⟨[node], cursor⟩)) :
    ∃ final rest, Rule.grow growth rounds node cursor = .found final rest ∧ ∀ next stack,
      Steps ⟨.again round next, stack, state.place ⟨[node], cursor⟩⟩
        ⟨next, stack, state.place ⟨[final], rest⟩⟩ := by
  induction rounds generalizing node cursor with
  | nil =>
      have stopped := advances.growth_eq_none (List.length_eq_zero_iff.mp (Nat.le_zero.mp enough))
      exact ⟨node, cursor, rfl, (ends_grown code grows stopped).again⟩
  | cons word rounds inductionHypothesis =>
      unfold Rule.grow
      cases growing : growth cursor with
      | none => exact ⟨node, cursor, rfl, (ends_grown code grows growing).again⟩
      | some larger =>
          have shorter := advances cursor larger growing
          have first := (ends_growing code grows growing ready
            (sound.valid.startAt?_mark larger.kind [node])
            (by rw [Builder.add_add, Builder.finish?_start])).again
          obtain ⟨final, rest, same, others⟩ := inductionHypothesis
            (.node larger.kind (node :: (larger.tail cursor).trees)) (larger.tail cursor).rest
            (by simp only [List.length_cons] at enough; omega)
            ((first (.done true) []).ready ready rfl)
          exact ⟨final, rest, same, fun next stack => (first next stack).trans (others next stack)⟩

end Round

namespace Program

variable {routine : Routine} {rule : Rule} {passage : Passage} {phrase : Phrase}

theorem extended_realizes {condition : Glance → Bool} {holds : Cursor → Bool}
    (realizes : routine.Realizes depth rule)
    (agree : ∀ cursor : Cursor, condition cursor.glance = holds cursor)
    (tail : ∀ cursor, holds cursor = true → passage.Realizes depth phrase cursor) :
    (extended routine condition kind passage).Realizes depth
      (Rule.settled (rule.extended holds kind phrase)) := by
  intro state ready shallow stack
  have marked : Steps ⟨extended routine condition kind passage, stack, state⟩
      ⟨.call routine fun found => if found then
        Passage.when condition (Passage.encloseFrom state.settle.builder.mark kind passage)
          (.done true) else .done false, stack, state.settle⟩ := .single rfl
  have settled : Ready depth state.settle := marked.ready ready rfl
  have called := marked.trans (realizes state.settle settled shallow _ stack)
  rw [Phrase.allow_settled, Rule.settled, Rule.extended]
  cases ended : rule state.cursor.settled with
  | absent | cut =>
      simpa [Phrase.allow, Rule.extended, Outcome.isFound, ended, leaves] using called
  | found node rest =>
      replace called : Steps ⟨extended routine condition kind passage, stack, state⟩
          ⟨Passage.when condition (Passage.encloseFrom state.settle.builder.mark kind passage)
            (.done true), stack, state.settle.place ⟨[node], rest⟩⟩ := by
        simpa [Phrase.allow, Outcome.isFound, ended, leaves] using called
      have extended :=
        Passage.extension_steps kind condition holds settled.sound (called.ready ready rfl)
          agree (tail rest) (.done true) stack
      cases seen : holds rest <;>
        simpa [Phrase.allow, Rule.extended, Outcome.isFound, ended, seen, leaves] using
          called.trans extended

theorem grown_realizes {growth : Cursor → Option Rule.Growth}
    {choices : Glance → Option (NodeKind × Passage)} {round : Nat → Round}
    (realizes : routine.RealizesSettled depth rule)
    (code : ∀ mark, (round mark).code = .growing mark choices)
    (grows : Round.Grows depth growth choices) (advances : Rule.Advances growth) :
    (grown routine round).Realizes depth (Rule.settled (rule.grown growth)) := by
  intro state ready shallow stack
  have marked : Steps ⟨grown routine round, stack, state⟩
      ⟨.call routine fun found => if found then .again (round state.settle.builder.mark)
        (.done true) else .done false, stack, state.settle⟩ := .single rfl
  have settled : Ready depth state.settle := marked.ready ready rfl
  have called := marked.trans (realizes state.settle settled shallow
    state.cursor.settled_settled _ stack)
  rw [Phrase.allow_settled, Rule.settled, Rule.grown]
  cases ended : rule state.cursor.settled with
  | absent | cut =>
      simpa [Phrase.allow, Rule.grown, Outcome.isFound, ended, leaves] using called
  | found node rest =>
      replace called : Steps ⟨grown routine round, stack, state⟩
          ⟨.again (round state.settle.builder.mark) (.done true), stack,
            state.settle.place ⟨[node], rest⟩⟩ := by
        simpa [Phrase.allow, Outcome.isFound, ended, leaves] using called
      obtain ⟨final, ending, same, looped⟩ := Round.grow_steps settled.sound (code _) grows
        advances rest.words node rest (Nat.le_refl _) (called.ready ready rfl)
      simpa [Phrase.allow, Rule.grown, Outcome.isFound, ended, same, leaves] using
        called.trans (looped (.done true) stack)

end Program

end Machine

end Scrapscript
