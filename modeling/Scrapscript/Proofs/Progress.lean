import Scrapscript.Proofs.Machine.Outermost

/-!
The parse of every document comes to its end. Wherever the machine calls a routine on its way, the
call comes back, and either it has used up a word where an expression starts, or it has left all
words alone where none starts, or the nesting limit was hit and no word is left. The nodes that were
open when it was called are open again, and what it has found is one node. Every round of a loop
uses up a word or ends the loop, and no token is skipped by force.
-/

namespace Scrapscript

namespace Machine

open Scrapscript.Tree (leaves)
open State (Ready)

variable {depth : Nat} {state : State} {cursor : Cursor}

/-- The three ways in which a call may end. -/
inductive Ending (cursor : Cursor) (answer : Bool) (rest : Cursor) : Prop
  | found (answered : answer = true) (seen : cursor.seesExpression = true)
      (shorter : rest.words.length < cursor.words.length)
  | absent (answered : answer = false) (unseen : cursor.seesExpression = false)
      (kept : rest.words = cursor.words)
  | cut (deep : rest.tooDeep = true) (exhausted : rest.words = [])

/-- The tree under construction is what it was, with some trees added; what was found is one node
after the blanks. -/
structure State.Adds (state : State) (found : Bool) (after : State) : Prop where
  trees : ∃ trees, after.builder = state.builder.add trees
  found : found = true → ∃ node : Tree, node.isNode = true ∧
    after.builder = state.builder.add (leaves state.cursor.blanks.tokens ++ [node])

namespace State

theorem Adds.begun {found : Bool} {after : State} (adds : state.Adds found after) :
    after.builder.begun = state.builder.begun := by
  obtain ⟨trees, added⟩ := adds.trees
  rw [added]
  rfl

theorem adds_place (state : State) (placement : Placement) :
    state.Adds false (state.place placement) :=
  ⟨⟨_, rfl⟩, nofun⟩

theorem adds_nothing (state : State) : state.Adds false state := by
  have added := state.adds_place ⟨[], state.cursor⟩
  rwa [place_nil] at added

end State

/-- Whatever program calls the routine and whatever calls are being run, the call comes back with an
answer in a state. -/
def Routine.Ends (routine : Routine) (state : State) (answer : Bool) (after : State) : Prop :=
  ∀ next stack, Steps ⟨.call routine next, stack, state⟩ ⟨next answer, stack, after⟩

/-- Whatever calls are being run, the program comes to its end with an answer in a state. -/
def Program.Ends (program : Program) (state : State) (answer : Bool) (after : State) : Prop :=
  ∀ stack, Steps ⟨program, stack, state⟩ ⟨.done answer, stack, after⟩

theorem ending_of_meets {rule : Rule} {good : Tree → Cursor → Prop}
    (meets : (rule cursor).Meets cursor good) :
    Ending cursor (rule cursor).isFound (Phrase.allow rule cursor).rest := by
  rw [Phrase.allow]
  cases ended : rule cursor with
  | found node rest =>
      rw [ended] at meets
      exact .found rfl meets.1 meets.2.1
  | absent rest =>
      rw [ended] at meets
      obtain ⟨unseen, rfl⟩ := meets
      exact .absent rfl unseen rfl
  | cut node rest =>
      rw [ended] at meets
      exact .cut meets.1 meets.2.1

theorem adds_of_meets {rule : Rule} {good : Tree → Cursor → Prop}
    (meets : (rule state.cursor).Meets state.cursor good) :
    state.Adds (rule state.cursor).isFound (state.place (Phrase.allow rule state.cursor)) := by
  refine ⟨⟨_, rfl⟩, fun answered => ?_⟩
  cases ended : rule state.cursor with
  | found node rest =>
      rw [ended] at meets
      exact ⟨node, meets.2.2.1, by simp [State.place, Phrase.allow, ended]⟩
  | absent | cut => simp [ended, Outcome.isFound] at answered

namespace Routine

variable {routine callee : Routine} {rule : Rule} {good : Tree → Cursor → Prop}

/-- A call of the routine ends in one of the three ways, at the depth at which it was made and in the
nodes in which it was made. -/
def Progresses (routine : Routine) (state : State) : Prop :=
  ∃ answer after, routine.Ends state answer after ∧ Ending state.cursor answer after.cursor ∧
    after.depth = state.depth ∧ state.Adds answer after

theorem Realizes.progresses (realizes : routine.Realizes depth rule) (builds : rule.Builds good)
    (ready : Ready depth state) (shallow : state.cursor.tooDeep = false) :
    routine.Progresses state :=
  ⟨_, _, realizes state ready shallow, ending_of_meets (builds state.cursor), rfl,
    adds_of_meets (builds state.cursor)⟩

/-- Once the parse is cut off, a call of the routine finds nothing, and what it places depends on the
cursor alone. -/
def Fails (routine : Routine) : Prop :=
  ∃ phrase : Phrase, ∀ state : State, state.cursor.tooDeep = true → state.cursor.words = [] →
    routine.Ends state false (state.place (phrase state.cursor)) ∧
      (phrase state.cursor).rest.tooDeep = true ∧ (phrase state.cursor).rest.words = []

/-- The same of the program of a routine. -/
def CodeFails (routine : Routine) : Prop :=
  ∃ phrase : Phrase, ∀ state : State, state.cursor.tooDeep = true → state.cursor.words = [] →
    routine.code.Ends state false (state.place (phrase state.cursor)) ∧
      (phrase state.cursor).rest.tooDeep = true ∧ (phrase state.cursor).rest.words = []

theorem fails_of_nests (nests : routine.nests = true) : routine.Fails := by
  refine ⟨Phrase.sequence [], fun state deep exhausted => ⟨fun next stack => .single ?_, deep,
    exhausted⟩⟩
  rw [Phrase.sequence, State.place_nil]
  simp [Step, step, enter, nests, deep]

/-- A routine that begins with a call that fails has nothing to go on with. -/
theorem codeFails_of_call {next : Nat → Bool → Program}
    (code : routine.code = .mark fun mark => .call callee (next mark))
    (refused : ∀ mark, next mark false = .done false) (fails : callee.Fails) :
    routine.CodeFails := by
  obtain ⟨phrase, fails⟩ := fails
  refine ⟨Phrase.sequence [Phrase.blanks, phrase], fun state deep exhausted => ?_⟩
  obtain ⟨ended, stillDeep, stillExhausted⟩ := fails state.settle deep exhausted
  refine ⟨fun stack => ?_, stillDeep, stillExhausted⟩
  have marked : Steps ⟨routine.code, stack, state⟩
      ⟨.call callee (next state.settle.builder.mark), stack, state.settle⟩ :=
    .single (by rw [code]; rfl)
  have called := marked.trans (ended (next state.settle.builder.mark) stack)
  rw [refused] at called
  simpa [Phrase.sequence, State.settle] using called

theorem codeFails_atom : Routine.atom.CodeFails := by
  refine ⟨Phrase.sequence [], fun state deep exhausted => ⟨fun stack => .single ?_, deep,
    exhausted⟩⟩
  have unseen : state.cursor.glance.kind? = none := by
    simp [Cursor.glance_kind?, Cursor.kind?, exhausted]
  rw [Phrase.sequence, State.place_nil]
  simp [Step, step, code, Program.atomAt, unseen]

theorem CodeFails.fails (codeFails : routine.CodeFails) (plain : routine.nests = false) :
    routine.Fails := by
  obtain ⟨phrase, codeFails⟩ := codeFails
  refine ⟨phrase, fun state deep exhausted => ?_⟩
  obtain ⟨ended, still⟩ := codeFails state deep exhausted
  refine ⟨fun next stack => ?_, still⟩
  have entered : Steps ⟨.call routine next, stack, state⟩
      ⟨routine.code, ⟨some routine, next⟩ :: stack, state⟩ :=
    .single (by simp [Step, step, enter, plain])
  refine (entered.trans (ended _)).tail ?_
  simp [Step, step, leave, Activation.nests, plain]

theorem codeFails (routine : Routine) : routine.CodeFails := by
  have function : Routine.function.Fails := fails_of_nests rfl
  have operand : (Routine.binary 0).Fails := fails_of_nests rfl
  have ascription : Routine.ascription.CodeFails :=
    codeFails_of_call rfl (fun _ => rfl) function
  have expression : Routine.expression.CodeFails :=
    codeFails_of_call rfl (fun _ => rfl) (ascription.fails rfl)
  have access : Routine.access.CodeFails :=
    codeFails_of_call rfl (fun _ => rfl) (codeFails_atom.fails rfl)
  have application : Routine.application.CodeFails :=
    codeFails_of_call rfl (fun _ => rfl) (access.fails rfl)
  cases routine with
  | item => exact codeFails_of_call rfl (fun _ => rfl) (expression.fails rfl)
  | expression => exact expression
  | ascription => exact ascription
  | function => exact codeFails_of_call rfl (fun _ => rfl) operand
  | binary => exact codeFails_of_call rfl (fun _ => rfl) (application.fails rfl)
  | application => exact application
  | access => exact access
  | atom => exact codeFails_atom

theorem fails (routine : Routine) : routine.Fails := by
  cases nests : routine.nests with
  | true => exact fails_of_nests nests
  | false => exact routine.codeFails.fails nests

/-- The routine for atoms answers whether an expression starts. -/
theorem atom_ends (ready : Ready depth state) :
    ∃ after, Routine.atom.Ends state state.cursor.seesExpression after ∧
      Ending state.cursor state.cursor.seesExpression after.cursor ∧
      after.depth = state.depth ∧ state.Adds state.cursor.seesExpression after := by
  have ends := atom_steps (realized_ofDepth depth) ready
  have meets := Grammar.atom_builds (Grammar.sound_ofDepth depth) state.cursor
  cases ended : Grammar.atom (Level.ofDepth depth) state.cursor with
  | cut => exact absurd ended Grammar.atom_ne_cut
  | found node rest =>
      rw [ended] at meets
      simp only [Phrase.allow, ended, Outcome.isFound, if_true] at ends
      rw [meets.1]
      exact ⟨_, ends, .found rfl meets.1 meets.2.1, rfl, ⟨_, rfl⟩,
        fun _ => ⟨node, meets.2.2.1, rfl⟩⟩
  | absent rest =>
      rw [ended] at meets
      simp only [ended, Outcome.isFound] at ends
      rw [meets.1]
      exact ⟨_, ends, .absent rfl meets.1 rfl, rfl, state.adds_nothing⟩

/-- A call of any routine progresses, whether or not the parse is cut off already. Items are called
for where nothing nests. -/
theorem progresses (routine : Routine) (ready : Ready depth state)
    (outermost : routine = .item → depth = Grammar.depthLimit) : routine.Progresses state := by
  cases deep : state.cursor.tooDeep with
  | true =>
      have exhausted := ready.sound.exhausted deep
      obtain ⟨phrase, fails⟩ := routine.fails
      obtain ⟨ends, stillDeep, stillExhausted⟩ := fails state deep exhausted
      exact ⟨false, _, ends, .cut stillDeep stillExhausted, rfl, state.adds_place _⟩
  | false =>
      have realized := realized_ofDepth depth
      have sound := Grammar.sound_ofDepth depth
      cases routine with
      | item =>
          obtain rfl := outermost rfl
          exact realizes_item.progresses Grammar.item_builds ready deep
      | expression =>
          exact (realizes_expression realized).progresses (Grammar.expression_builds sound) ready
            deep
      | ascription =>
          exact (realizes_ascription realized).progresses (Grammar.ascription_builds sound) ready
            deep
      | function => exact realized.function.progresses sound.function ready deep
      | binary power => exact (realized.binary power).progresses (sound.binary power) ready deep
      | application =>
          exact (realizes_application realized).progresses (Grammar.application_builds sound) ready
            deep
      | access =>
          exact (realizes_access realized).progresses (Grammar.access_builds sound) ready deep
      | atom =>
          exact ⟨_, atom_ends ready⟩

end Routine

namespace Round

variable {round : Round}

/-- A round uses up a word if it answers that there may be more, and ends at the depth at which it
was begun. -/
def Progresses (round : Round) (state : State) : Prop :=
  ∃ more after, round.Ends state more after ∧ after.depth = state.depth ∧
    (more = true → after.cursor.words.length < state.cursor.words.length)

theorem progresses_asLongAs {condition : Glance → Bool} {holds : Cursor → Bool}
    {passage : Passage} {phrase : Phrase} (code : round.code = .asLongAs condition passage)
    (agree : ∀ cursor : Cursor, condition cursor.glance = holds cursor)
    (advances : Phrase.Advances holds phrase)
    (realizes : ∀ cursor, holds cursor = true → passage.Realizes depth phrase cursor)
    (ready : Ready depth state) : round.Progresses state := by
  cases seen : holds state.cursor with
  | false => exact ⟨false, state, ends_of_not code agree seen, rfl, nofun⟩
  | true =>
      exact ⟨true, _, ends_of_holds code agree ready seen (realizes _ seen), rfl,
        fun _ => advances _ seen⟩

theorem progresses_growing {growth : Cursor → Option Rule.Growth}
    {choices : Glance → Option (NodeKind × Passage)} {mark : Nat}
    (code : round.code = .growing mark choices) (grows : Grows depth growth choices)
    (advances : Rule.Advances growth) (ready : Ready depth state)
    (legal : ∀ kind passage, choices state.cursor.glance = some (kind, passage) →
      (state.builder.startAt? mark kind).isSome = true) : round.Progresses state := by
  cases growing : growth state.cursor with
  | none => exact ⟨false, state, ends_grown code grows growing, rfl, nofun⟩
  | some larger =>
      obtain ⟨passage, chosen, -⟩ := grows.larger _ larger growing
      obtain ⟨begun, started⟩ := Option.isSome_iff_exists.mp (legal _ _ chosen)
      obtain ⟨finished, ended⟩ := Builder.exists_finish?_of_startAt? started
        (larger.tail state.cursor).trees
      exact ⟨true, _, ends_growing code grows growing ready started ended, rfl,
        fun _ => advances _ larger growing⟩

/-- The machine is not stuck on its way, so that the marks which it uses are good. -/
theorem legal_of_reached {text : Text} {next : Program} {stack : List Activation}
    {choices : Glance → Option (NodeKind × Passage)} {mark : Nat} {kind : NodeKind}
    {passage : Passage} (reached : Steps (start text) ⟨.again round next, stack, state⟩)
    (code : round.code = .growing mark choices)
    (chosen : choices state.cursor.glance = some (kind, passage)) :
    (state.builder.startAt? mark kind).isSome = true := by
  have entered : Steps (start text) ⟨round.code,
      ⟨none, fun more => if more then .again round next else next⟩ :: stack, state⟩ :=
    reached.tail rfl
  have looked : Steps (start text) ⟨Passage.encloseFrom mark kind passage (.done true),
      ⟨none, fun more => if more then .again round next else next⟩ :: stack, state⟩ :=
    entered.tail (by simp [Step, step, code, Program.growing, chosen])
  rcases Relation.ReflTransGen.cases_head (steps_ended looked) with same | ⟨later, stepped, -⟩
  · exact Program.noConfusion (congrArg Machine.control same)
  · obtain ⟨after, acted, -⟩ := Option.map_eq_some_iff.mp stepped
    obtain ⟨builder, started, -⟩ := Option.map_eq_some_iff.mp acted
    exact Option.isSome_iff_exists.mpr ⟨builder, started⟩

end Round

theorem Counted.ready {machine : Machine} (counted : machine.Counted)
    (sound : machine.state.Sound) :
    Ready (Grammar.depthLimit - machine.state.depth) machine.state :=
  ⟨sound, Nat.add_sub_cancel' counted.limited⟩

theorem ready_of_reached {text : Text} {machine : Machine}
    (reached : Steps (start text) machine) :
    Ready (Grammar.depthLimit - machine.state.depth) machine.state :=
  (reached.counted (start_counted text)).ready (reached.sound (start_sound text))

/-- Every call that the machine makes on its way through a document progresses. -/
theorem call_progresses {text : Text} {machine : Machine} {routine : Routine}
    {next : Bool → Program} (reached : Steps (start text) machine)
    (calling : machine.control = .call routine next) : routine.Progresses machine.state := by
  refine routine.progresses (ready_of_reached reached) ?_
  rintro rfl
  have outermost := (reached.phase.ready_of_call calling).room
  omega

theorem Round.progresses_item (ready : Ready Grammar.depthLimit state) :
    Round.item.Progresses state := by
  cases ended : state.cursor.atEnd with
  | true => exact ⟨false, state, item_round_stops ended, rfl, nofun⟩
  | false =>
      exact ⟨true, _, item_round_ends ready ended, rfl, fun _ =>
        Grammar.length_sourceItem_lt ended⟩

/-- Every round that the machine runs on its way through a document progresses. -/
theorem round_progresses {text : Text} {machine : Machine} {round : Round} {next : Program}
    (reached : Steps (start text) machine) (looping : machine.control = .again round next) :
    round.Progresses machine.state := by
  have phase := reached.phase
  obtain ⟨_, stack, state⟩ := machine
  obtain rfl : _ = Program.again round next := looping
  have ready := ready_of_reached reached
  have realized := realized_ofDepth (Grammar.depthLimit - state.depth)
  have sound := Grammar.sound_ofDepth (Grammar.depthLimit - state.depth)
  cases round with
  | item => exact Round.progresses_item (phase.ready_of_again rfl)
  | clause =>
      exact Round.progresses_growing rfl (grows_clauses realized) (Grammar.clauses_advance sound)
        ready fun _ _ => Round.legal_of_reached reached rfl
  | operation power =>
      exact Round.progresses_growing rfl (grows_joining realized power)
        (Grammar.joining_advances sound power) ready fun _ _ => Round.legal_of_reached reached rfl
  | argument =>
      exact Round.progresses_growing rfl (grows_arguments realized)
        (Grammar.arguments_advance sound) ready fun _ _ => Round.legal_of_reached reached rfl
  | field =>
      exact Round.progresses_growing rfl grows_fields Grammar.accessing_advances ready
        fun _ _ => Round.legal_of_reached reached rfl
  | element =>
      exact Round.progresses_asLongAs rfl Cursor.glance_seesMore (Grammar.listItem_advances sound)
        (fun _ _ => realizes_listItem realized) ready
  | entry =>
      exact Round.progresses_asLongAs rfl Cursor.glance_seesMore
        (Grammar.recordItem_advances sound) (fun _ _ => realizes_recordItem realized) ready
  | case =>
      exact Round.progresses_asLongAs rfl (fun cursor => cursor.glance_sees .pipe)
        (Grammar.patternCase_advances sound) (fun _ => realizes_patternCase realized) ready

/-- The state holds a finished parse. -/
structure State.Holds (state : State) (parse : Parse) : Prop where
  tree : state.builder.tree? = some parse.tree
  errors : state.cursor.errors.reverse = parse.errors
  tooDeep : state.cursor.tooDeep = parse.tooDeep

theorem ended_holds (text : Text) : (ended text).state.Holds (Parse.ofText text) :=
  ⟨rfl, rfl, rfl⟩

/-- The parse of every document ends, and wherever it gets on its way, calls come back in one of
three ways, atoms are found exactly where expressions start, rounds of loops use up a word or end
the loop, and nothing is skipped by force. -/
theorem ends_with_progress (text : Text) :
    Steps (start text) (ended text) ∧ (ended text).step = none ∧
      (ended text).state.Holds (Parse.ofText text) ∧
      (¬ ∃ path : Nat → Machine, path 0 = start text ∧ ∀ n, Step (path n) (path (n + 1))) ∧
      ∀ machine, Steps (start text) machine →
        Steps machine (ended text) ∧
        (∀ routine next, machine.control = .call routine next →
          ∃ answer after, routine.Ends machine.state answer after ∧
            Steps machine ⟨next answer, machine.stack, after⟩ ∧
            Ending machine.state.cursor answer after.cursor ∧
            (routine = .atom → answer = machine.state.cursor.seesExpression)) ∧
        (∀ round next, machine.control = .again round next →
          ∃ more after, round.Ends machine.state more after ∧
            Steps machine ⟨if more then .again round next else next, machine.stack, after⟩ ∧
            (more = true → after.cursor.words.length < machine.state.cursor.words.length)) ∧
        ∀ action next, machine.control = .perform action next → action ≠ .skip := by
  have run := start_steps text
  refine ⟨run, ended_step text, ended_holds text, run.finite (ended_step text), ?_⟩
  intro machine reached
  refine ⟨steps_ended reached, ?_, ?_, fun action next => reached.phase.action_ne_skip⟩
  · intro routine next calling
    obtain ⟨control, stack, state⟩ := machine
    obtain rfl : control = _ := calling
    by_cases atomic : routine = .atom
    · obtain rfl := atomic
      obtain ⟨after, ends, ending, -⟩ := Routine.atom_ends (ready_of_reached reached)
      exact ⟨_, after, ends, ends next stack, ending, fun _ => rfl⟩
    · obtain ⟨answer, after, ends, ending, -⟩ := call_progresses reached rfl
      exact ⟨answer, after, ends, ends next stack, ending, fun same => absurd same atomic⟩
  · intro round next looping
    obtain ⟨control, stack, state⟩ := machine
    obtain rfl : control = _ := looping
    obtain ⟨more, after, ends, -, shorter⟩ := round_progresses reached rfl
    exact ⟨more, after, ends, ends.again next stack, shorter⟩

end Machine

end Scrapscript
