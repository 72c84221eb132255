import Mathlib.Logic.Relation
import Scrapscript.Proofs.Machine.Program
import Scrapscript.Proofs.Grammar.Rule

/-!
The machine that runs the program of the grammar. It has the calls that are being run on a stack and
counts those that nest; a call beyond the limit is refused, once the machine has put all that is
left into an error node. What one step may do to the state is said once (`Moves`), and what every
run preserves is derived from it.
-/

namespace Scrapscript

namespace Machine

/-- What a program acts on. -/
structure State where
  cursor : Cursor
  builder : Builder
  depth : Nat

namespace State

def place (state : State) (placement : Placement) : State :=
  { state with cursor := placement.rest, builder := state.builder.add placement.trees }

def settle (state : State) : State :=
  state.place (Phrase.blanks state.cursor)

/-- Puts all that is left into an error node. -/
def cut (state : State) : State :=
  state.place (Phrase.allow Rule.cutOff state.cursor)

/-- Nodes cannot be begun at a mark that is no longer good, nor finished when none is begun. -/
def perform? (state : State) : Action → Option State
  | .flush => some state.settle
  | .bump => some (state.place (Phrase.take state.cursor))
  | .start kind => some { state.settle with builder := state.settle.builder.start kind }
  | .startAt mark kind =>
      (state.builder.startAt? mark kind).map fun builder => { state with builder }
  | .finish => state.builder.finish?.map fun builder => { state with builder }
  | .missing complaint => some (state.place (Phrase.missing complaint.fault state.cursor))
  | .reject complaint =>
      some (state.place
        (Phrase.reject (complaint state.cursor.nextText).fault state.cursor))

def deeper (state : State) : State :=
  { state with depth := state.depth + 1 }

def shallower (state : State) : State :=
  { state with depth := state.depth - 1 }

end State

/-- A call that is being run, and how the program goes on after it. -/
structure Activation where
  /-- A round of a loop is no routine. -/
  routine? : Option Routine
  next : Bool → Program

def Activation.nests (activation : Activation) : Bool :=
  activation.routine?.any Routine.nests

end Machine

open Machine in
structure Machine where
  control : Program
  /-- The calls that are being run, innermost first. -/
  stack : List Activation
  state : State

namespace Machine

/-- How many of the calls that are being run count as nesting. -/
def nesting (machine : Machine) : Nat :=
  machine.stack.countP Activation.nests

def enter (routine : Routine) (next : Bool → Program) (stack : List Activation) (state : State) :
    Machine :=
  let inside := ⟨some routine, next⟩ :: stack
  if routine.nests then
    if state.cursor.tooDeep then ⟨next false, stack, state⟩
    else if Grammar.depthLimit ≤ state.depth then ⟨next false, stack, state.cut⟩
    else ⟨routine.code, inside, state.deeper⟩
  else ⟨routine.code, inside, state⟩

def leave (answer : Bool) (activation : Activation) (stack : List Activation) (state : State) :
    Machine :=
  ⟨activation.next answer, stack, if activation.nests then state.shallower else state⟩

def step (machine : Machine) : Option Machine :=
  match machine.control with
  | .done answer =>
      match machine.stack with
      | [] => none
      | activation :: stack => some (leave answer activation stack machine.state)
  | .perform action next =>
      (machine.state.perform? action).map fun state => ⟨next, machine.stack, state⟩
  | .look next => some ⟨next machine.state.cursor.glance, machine.stack, machine.state⟩
  | .mark next =>
      some ⟨next machine.state.settle.builder.mark, machine.stack, machine.state.settle⟩
  | .call routine next => some (enter routine next machine.stack machine.state)
  | .again round next =>
      let further (more : Bool) : Program := if more then .again round next else next
      some ⟨round.code, ⟨none, further⟩ :: machine.stack, machine.state⟩

def Step (machine next : Machine) : Prop :=
  machine.step = some next

abbrev Steps : Machine → Machine → Prop :=
  Relation.ReflTransGen Step

/-- The machine at the start of a document, whose node is begun. -/
def start (text : Text) : Machine :=
  ⟨.sourceFile, [], ⟨.ofTokens (Lexer.tokenize text), Builder.empty.start .sourceFile, 0⟩⟩

variable {machine next final : Machine} {state after : State}

namespace State

/-- What a step may do to the state. -/
inductive Moves (state : State) : State → Prop
  | still : Moves state state
  | act (action : Action) {after : State} (acted : state.perform? action = some after) :
      Moves state after
  | deeper (shallow : state.cursor.tooDeep = false) (room : state.depth < Grammar.depthLimit) :
      Moves state state.deeper
  | cut (shallow : state.cursor.tooDeep = false) (full : Grammar.depthLimit ≤ state.depth) :
      Moves state state.cut
  | shallower : Moves state state.shallower

end State

theorem moves_enter (routine : Routine) (next : Bool → Program) (stack : List Activation)
    (state : State) : state.Moves (enter routine next stack state).state := by
  unfold enter
  split
  · split
    · exact .still
    · rename_i shallow
      have shallow : state.cursor.tooDeep = false := by simpa using shallow
      split
      · rename_i full
        exact .cut shallow full
      · rename_i room
        exact .deeper shallow (Nat.lt_of_not_le room)
  · exact .still

/-- A call is refused, or it is entered and counted if it nests. -/
theorem enter_cases (routine : Routine) (next : Bool → Program) (stack : List Activation)
    (state : State) :
    (∃ after : State, after.depth = state.depth ∧ after.builder.begun = state.builder.begun ∧
        enter routine next stack state = ⟨next false, stack, after⟩) ∨
      routine.nests = true ∧ state.depth < Grammar.depthLimit ∧
        enter routine next stack state =
          ⟨routine.code, ⟨some routine, next⟩ :: stack, state.deeper⟩ ∨
      routine.nests = false ∧
        enter routine next stack state = ⟨routine.code, ⟨some routine, next⟩ :: stack, state⟩ := by
  cases nests : routine.nests with
  | false => exact .inr (.inr ⟨rfl, by simp [enter, nests]⟩)
  | true =>
      cases deep : state.cursor.tooDeep with
      | true => exact .inl ⟨state, rfl, rfl, by simp [enter, nests, deep]⟩
      | false =>
          rcases Nat.lt_or_ge state.depth Grammar.depthLimit with room | full
          · refine .inr (.inl ⟨rfl, room, ?_⟩)
            simp [enter, nests, deep, Nat.not_le.mpr room]
          · exact .inl ⟨state.cut, rfl, rfl, by simp [enter, nests, deep, full]⟩

theorem Step.moves (stepped : Step machine next) : machine.state.Moves next.state := by
  obtain ⟨control, stack, state⟩ := machine
  cases control with
  | done answer =>
      cases stack with
      | nil => contradiction
      | cons activation stack =>
          obtain rfl := Option.some.inj stepped
          simp only [leave]
          split
          · exact .shallower
          · exact .still
  | perform action continuation =>
      obtain ⟨after, acted, rfl⟩ := Option.map_eq_some_iff.mp stepped
      exact .act action acted
  | look continuation =>
      obtain rfl := Option.some.inj stepped
      exact .still
  | mark continuation =>
      obtain rfl := Option.some.inj stepped
      exact .act .flush rfl
  | call routine continuation =>
      obtain rfl := Option.some.inj stepped
      exact moves_enter routine continuation stack state
  | again round continuation =>
      obtain rfl := Option.some.inj stepped
      exact .still

/-- What holds at first and is kept by what a step does to the state holds after every run. -/
theorem Steps.invariant {holds : State → Prop}
    (kept : ∀ {state after : State}, state.Moves after → holds state → holds after)
    (run : Steps machine next) (atFirst : holds machine.state) : holds next.state := by
  induction run with
  | refl => exact atFirst
  | tail earlier stepped inductionHypothesis => exact kept stepped.moves inductionHypothesis

namespace State

/-- How the cursor changes, whatever the builder does. -/
inductive Shifts (cursor : Cursor) : Cursor → Prop
  | still : Shifts cursor cursor
  | settled : Shifts cursor cursor.settled
  | taken : Shifts cursor (Phrase.take cursor).rest
  | missing (complaint : Complaint) : Shifts cursor (Phrase.missing complaint.fault cursor).rest
  | rejected (complaint : Complaint) : Shifts cursor (Phrase.reject complaint.fault cursor).rest
  | cut (shallow : cursor.tooDeep = false) : Shifts cursor (Phrase.allow Rule.cutOff cursor).rest

theorem Moves.shifts (moves : state.Moves after) : Shifts state.cursor after.cursor := by
  cases moves with
  | still | deeper | shallower => exact .still
  | cut shallow => exact .cut shallow
  | act action acted =>
      cases action with
      | flush | start =>
          obtain rfl := Option.some.inj acted
          exact .settled
      | bump =>
          obtain rfl := Option.some.inj acted
          exact .taken
      | startAt | finish =>
          obtain ⟨builder, -, rfl⟩ := Option.map_eq_some_iff.mp acted
          exact .still
      | missing complaint =>
          obtain rfl := Option.some.inj acted
          exact .missing complaint
      | reject complaint =>
          obtain rfl := Option.some.inj acted
          exact .rejected _

theorem Moves.valid (moves : state.Moves after) (valid : state.builder.Valid) :
    after.builder.Valid := by
  cases moves with
  | still | deeper | shallower => exact valid
  | cut => exact valid.add _
  | act action acted =>
      cases action with
      | flush | bump | missing | reject =>
          obtain rfl := Option.some.inj acted
          exact valid.add _
      | start kind =>
          obtain rfl := Option.some.inj acted
          exact (valid.add _).start kind
      | startAt mark kind =>
          obtain ⟨builder, started, rfl⟩ := Option.map_eq_some_iff.mp acted
          exact valid.startAt started
      | finish =>
          obtain ⟨builder, finished, rfl⟩ := Option.map_eq_some_iff.mp acted
          exact valid.finish finished

theorem Shifts.exhausted {cursor rest : Cursor} (shifts : Shifts cursor rest)
    (ended : cursor.tooDeep = true → cursor.words = []) (deep : rest.tooDeep = true) :
    rest.words = [] := by
  -- Taking a word keeps the mark that the parse is cut off, and none is left if it is.
  have taken (cursor : Cursor) (ended : cursor.tooDeep = true → cursor.words = [])
      (deep : (Phrase.take cursor).rest.tooDeep = true) : (Phrase.take cursor).rest.words = [] := by
    cases next : cursor.words with
    | nil => simp [Phrase.take, Phrase.blanks, next]
    | cons word more =>
        rw [Phrase.take_eq next] at deep
        simp [ended (by simpa using deep)] at next
  cases shifts with
  | still | settled | missing => exact ended deep
  | taken => exact taken cursor ended deep
  | rejected => exact taken _ ended deep
  | cut => exact (Rule.cutOff_builds (fun _ _ => True) cursor).2.1

/-- The builder is in order, and a parse that is cut off has no words left. -/
structure Sound (state : State) : Prop where
  valid : state.builder.Valid
  exhausted : state.cursor.tooDeep = true → state.cursor.words = []

theorem Sound.moves (sound : state.Sound) (moves : state.Moves after) : after.Sound :=
  ⟨moves.valid sound.valid, moves.shifts.exhausted sound.exhausted⟩

theorem Sound.shallow (sound : state.Sound) (begun : state.cursor.words ≠ []) :
    state.cursor.tooDeep = false :=
  Bool.eq_false_iff.mpr fun deep => begun (sound.exhausted deep)

end State

theorem Steps.sound (run : Steps machine next) (sound : machine.state.Sound) : next.state.Sound :=
  run.invariant (fun moves sound => sound.moves moves) sound

theorem start_sound (text : Text) : (start text).state.Sound :=
  ⟨Builder.empty_valid.start _, fun deep => absurd deep Bool.false_ne_true⟩

/-- A run that has come to its end passes through whatever the machine reaches. -/
theorem Steps.of_halted (run : Steps machine final) (halted : final.step = none)
    (reached : Steps machine next) : Steps next final := by
  have unique : Relator.RightUnique Step := by
    intro machine next other stepped otherStepped
    exact Option.some.inj (stepped.symm.trans otherStepped)
  rcases Relation.ReflTransGen.total_of_right_unique unique run reached with beyond | before
  · rcases Relation.ReflTransGen.cases_head beyond with rfl | ⟨later, stepped, -⟩
    · exact .refl
    · exact absurd (halted.symm.trans stepped) (Option.some_ne_none later).symm
  · exact before

theorem Steps.eq_of_halted (run : Steps machine final) (halted : final.step = none)
    (reached : Steps machine next) (stopped : next.step = none) : next = final := by
  rcases Relation.ReflTransGen.cases_head (run.of_halted halted reached) with
    same | ⟨later, stepped, -⟩
  · exact same
  · exact absurd (stopped.symm.trans stepped) (Option.some_ne_none later).symm

/-- A machine that comes to its end does not run on forever. -/
theorem Steps.finite (run : Steps machine final) (halted : final.step = none) :
    ¬ ∃ path : Nat → Machine, path 0 = machine ∧ ∀ n, Step (path n) (path (n + 1)) := by
  induction run using Relation.ReflTransGen.head_induction_on with
  | refl =>
      rintro ⟨path, begins, goes⟩
      have stepped := goes 0
      rw [begins] at stepped
      exact absurd (halted.symm.trans stepped) (Option.some_ne_none _).symm
  | head stepped _ inductionHypothesis =>
      rintro ⟨path, rfl, goes⟩
      refine inductionHypothesis ⟨fun n => path (n + 1), ?_, fun n => goes (n + 1)⟩
      exact Option.some.inj ((goes 0).symm.trans stepped)

/-- The depth is the number of calls that nest, and within the limit. -/
structure Counted (machine : Machine) : Prop where
  depth : machine.state.depth = machine.nesting
  limited : machine.state.depth ≤ Grammar.depthLimit

theorem State.perform?_depth {action : Action} (acted : state.perform? action = some after) :
    after.depth = state.depth := by
  cases action with
  | startAt | finish =>
      obtain ⟨builder, -, rfl⟩ := Option.map_eq_some_iff.mp acted
      rfl
  | _ =>
      obtain rfl := Option.some.inj acted
      rfl

theorem Counted.step (counted : machine.Counted) (stepped : Step machine next) : next.Counted := by
  obtain ⟨control, stack, state⟩ := machine
  obtain ⟨depth, limited⟩ := counted
  simp only [nesting] at depth limited
  cases control with
  | done answer =>
      cases stack with
      | nil => contradiction
      | cons activation stack =>
          obtain rfl := Option.some.inj stepped
          rw [List.countP_cons] at depth
          cases nests : activation.nests with
          | false =>
              exact ⟨by simpa [leave, nesting, nests] using depth,
                by simpa [leave, nests] using limited⟩
          | true =>
              simp only [nests, if_true] at depth
              constructor <;> simp only [leave, nesting, nests, if_true, State.shallower] <;> omega
  | perform action continuation =>
      obtain ⟨after, acted, rfl⟩ := Option.map_eq_some_iff.mp stepped
      have same := State.perform?_depth acted
      exact ⟨same.trans depth, same ▸ limited⟩
  | look | mark =>
      obtain rfl := Option.some.inj stepped
      exact ⟨depth, limited⟩
  | call routine continuation =>
      obtain rfl := Option.some.inj stepped
      rcases enter_cases routine continuation stack state with
        ⟨after, same, -, refused⟩ | ⟨nests, room, entered⟩ | ⟨plain, entered⟩
      · rw [refused]
        exact ⟨same.trans depth, same ▸ limited⟩
      · rw [entered]
        refine ⟨?_, room⟩
        simp [nesting, State.deeper, Activation.nests, nests, depth]
      · rw [entered]
        exact ⟨by simpa [nesting, Activation.nests, plain] using depth, limited⟩
  | again round continuation =>
      obtain rfl := Option.some.inj stepped
      exact ⟨by simpa [nesting, Activation.nests] using depth, limited⟩

theorem start_counted (text : Text) : (start text).Counted :=
  ⟨rfl, Nat.zero_le _⟩

theorem Steps.counted (run : Steps machine next) (counted : machine.Counted) : next.Counted := by
  induction run with
  | refl => exact counted
  | tail earlier stepped inductionHypothesis => exact inductionHypothesis.step stepped

end Machine

end Scrapscript
