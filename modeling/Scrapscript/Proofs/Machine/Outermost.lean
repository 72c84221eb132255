import Scrapscript.Proofs.Machine.Routines

/-!
The outermost loop. Items are called for from there alone, with no call that nests being run, and no
token is ever skipped by force. What happens during the call of an item is a run of its own, on a
stack that holds only the calls made since; it finishes just the nodes that it has begun, so that
the node of the document stays open until the end.
-/

namespace Scrapscript

namespace Machine

variable {machine next : Machine} {state : State}

/-- The machine with further calls below its own on the stack. -/
def on (machine : Machine) (base : List Activation) : Machine :=
  { machine with stack := machine.stack ++ base }

theorem enter_on (routine : Routine) (next : Bool → Program) (stack base : List Activation)
    (state : State) :
    enter routine next (stack ++ base) state = (enter routine next stack state).on base := by
  by_cases nests : routine.nests = true <;> by_cases deep : state.cursor.tooDeep = true <;>
    by_cases full : Grammar.depthLimit ≤ state.depth <;> simp [enter, on, nests, deep, full]

/-- A machine with further calls below its own does what it does without them, until it has come to
its own end. -/
theorem Step.of_on {base : List Activation} (stepped : Step (machine.on base) next) :
    (∃ inner, Step machine inner ∧ next = inner.on base) ∨
      ∃ answer, machine.control = .done answer ∧ machine.stack = [] := by
  obtain ⟨control, stack, state⟩ := machine
  cases control with
  | done answer =>
      cases stack with
      | nil => exact .inr ⟨answer, rfl, rfl⟩
      | cons activation stack =>
          obtain rfl := Option.some.inj stepped
          exact .inl ⟨_, rfl, rfl⟩
  | perform action continuation =>
      obtain ⟨after, acted, rfl⟩ := Option.map_eq_some_iff.mp stepped
      have acted : state.perform? action = some after := acted
      exact .inl ⟨⟨continuation, stack, after⟩, by simp [Step, step, acted], rfl⟩
  | look | mark | again =>
      obtain rfl := Option.some.inj stepped
      exact .inl ⟨_, rfl, rfl⟩
  | call routine continuation =>
      obtain rfl := Option.some.inj stepped
      exact .inl ⟨_, rfl, enter_on routine continuation stack base state⟩

/-- A program that neither calls for an item nor skips a token by force, and that finishes a number
of nodes beyond those that it begins. -/
def Program.Inner : Program → Nat → Prop
  | done _, unfinished => unfinished = 0
  | perform (.start _) next, unfinished => next.Inner (unfinished + 1)
  | perform (.startAt _ _) next, unfinished => next.Inner (unfinished + 1)
  | perform .finish next, unfinished => ∃ outer, unfinished = outer + 1 ∧ next.Inner outer
  | perform action next, unfinished => action ≠ .skip ∧ next.Inner unfinished
  | look next, unfinished => ∀ glance, (next glance).Inner unfinished
  | mark next, unfinished => ∀ place, (next place).Inner unfinished
  | call routine next, unfinished =>
      routine ≠ .item ∧ ∀ answer, (next answer).Inner unfinished
  | again round next, unfinished => round ≠ .item ∧ next.Inner unfinished

theorem Program.Inner.action_ne_skip {action : Action} {next : Program} {unfinished : Nat}
    (inner : (perform action next).Inner unfinished) : action ≠ .skip := by
  cases action with
  | flush | bump | missing | reject => exact inner.1
  | start | startAt | finish => simp [Action.skip]

namespace Passage

/-- A passage that adds no call for an item and no skip to what follows it, and finishes all nodes
that it begins. -/
def Inner (passage : Passage) : Prop :=
  ∀ (next : Program) (unfinished : Nat), next.Inner unfinished → (passage next).Inner unfinished

variable {passage other : Passage} {passages : List Passage} {condition : Glance → Bool}

theorem inner_take : take.Inner :=
  fun _ _ inner => ⟨by simp [Action.skip], inner⟩

theorem inner_missing (complaint : Complaint) : (missing complaint).Inner :=
  fun _ _ inner => ⟨by simp [Action.skip], inner⟩

theorem inner_reject {complaint : Text → Complaint} (text : Text)
    (orderly : (complaint text).fault ≠ .stalled) : (reject complaint).Inner := by
  refine fun _ _ inner => ⟨fun same => orderly ?_, inner⟩
  rw [Action.reject.inj same]

theorem inner_sequence (inside : ∀ passage ∈ passages, passage.Inner) :
    (sequence passages).Inner := by
  intro next unfinished inner
  induction passages with
  | nil => exact inner
  | cons passage passages inductionHypothesis =>
      have others := inductionHypothesis fun passage membership =>
        inside passage (List.mem_cons_of_mem _ membership)
      exact inside passage List.mem_cons_self _ _ others

/-- A token and a passage after it. -/
theorem inner_tokenThen (inside : passage.Inner) : (sequence [take, passage]).Inner :=
  inner_sequence (by simp [inner_take, inside])

theorem inner_either (first : passage.Inner) (second : other.Inner) :
    (either condition passage other).Inner := by
  intro next unfinished inner glance
  simp only
  split
  · exact first _ _ inner
  · exact second _ _ inner

theorem inner_when (inside : passage.Inner) : (when condition passage).Inner := by
  intro next unfinished inner glance
  simp only
  split
  · exact inside _ _ inner
  · exact inner

theorem inner_enclose {kind : NodeKind} (inside : passage.Inner) : (enclose kind passage).Inner :=
  fun _ unfinished inner => inside _ (unfinished + 1) ⟨unfinished, rfl, inner⟩

theorem inner_encloseFrom {mark : Nat} {kind : NodeKind} (inside : passage.Inner) :
    (encloseFrom mark kind passage).Inner :=
  fun _ unfinished inner => inside _ (unfinished + 1) ⟨unfinished, rfl, inner⟩

theorem inner_require {routine : Routine} (inside : routine ≠ .item) (complaint : Complaint) :
    (require routine complaint).Inner := by
  refine fun _ _ inner => ⟨inside, fun answer => ?_⟩
  cases answer with
  | true => exact inner
  | false => exact inner_missing complaint _ _ inner

theorem inner_allow {routine : Routine} (inside : routine ≠ .item) : (allow routine).Inner :=
  fun _ _ inner => ⟨inside, fun _ => inner⟩

theorem inner_again {round : Round} (inside : round ≠ .item) :
    Passage.Inner (.again round) :=
  fun _ _ inner => ⟨inside, inner⟩

theorem inner_expect (token : TokenKind) (complaint : Complaint) : (expect token complaint).Inner :=
  inner_either inner_take (inner_missing complaint)

theorem inner_bound : bound.Inner := by
  refine fun _ _ inner mark => ⟨by simp, fun _ => inner_when (inner_encloseFrom ?_) _ _ inner⟩
  exact inner_tokenThen (inner_require (by simp) _)

theorem inner_spread : spread.Inner :=
  inner_enclose (inner_tokenThen (inner_when (inner_allow (by simp))))

theorem inner_separated (inside : passage.Inner) (closer : TokenKind) :
    (sequence [passage, separator closer]).Inner := by
  have separator : (separator closer).Inner := inner_when (inner_missing _)
  exact inner_sequence (by simp [inside, separator])

theorem inner_listItem : listItem.Inner := by
  refine inner_either inner_take (inner_either (inner_separated inner_spread _) ?_)
  refine inner_either (inner_separated (inner_allow (by simp)) _) ?_
  exact inner_reject [] (by simp)

theorem inner_recordField : recordField.Inner := by
  have named : name.Inner := inner_enclose inner_take
  have value : (when (·.sees .equals) (sequence [take,
      require .ascription ⟨.missingFieldValue, by simp⟩])).Inner :=
    inner_when (inner_tokenThen (inner_require (by simp) _))
  exact inner_enclose (inner_sequence (by simp [named, value]))

theorem inner_recordItem : recordItem.Inner := by
  refine inner_either inner_take (inner_either (inner_separated inner_spread _) ?_)
  refine inner_either (inner_separated inner_recordField _) ?_
  exact inner_reject [] (by simp)

theorem inner_patternCase : patternCase.Inner := by
  have pattern : (require (.binary 0) ⟨.missingPattern, by simp⟩).Inner :=
    inner_require (by simp) _
  have guarded : (when (·.sees .question) guard).Inner :=
    inner_when (inner_enclose (inner_tokenThen (inner_require (by simp) _)))
  have body : caseBody.Inner :=
    inner_either (inner_tokenThen (inner_require (by simp) _)) (inner_missing _)
  exact inner_enclose (inner_sequence (by simp [inner_take, pattern, guarded, body]))

theorem inner_parenthesized : parenthesized.Inner := by
  intro next unfinished inner mark
  have expression : (require .expression ⟨.missingExpression, by simp⟩).Inner :=
    inner_require (by simp) _
  have closer : (expect .closeParen ⟨.missingCloser .closeParen, by simp⟩).Inner :=
    inner_expect _ _
  refine inner_tokenThen (inner_either (inner_encloseFrom inner_take) (inner_encloseFrom ?_))
    _ _ inner
  exact inner_sequence (by simp [expression, closer])

theorem inner_collection {kind : NodeKind} {round : Round} (inside : round ≠ .item)
    (closer : TokenKind) : (collection kind round closer).Inner := by
  have items : Passage.Inner (.again round) := inner_again inside
  have closing : (expect closer ⟨.missingCloser closer, by simp⟩).Inner := inner_expect _ _
  exact inner_enclose (inner_sequence (by simp [inner_take, items, closing]))

end Passage

namespace Program

open Passage

theorem inner_atomAt (glance : Glance) : (atomAt glance).Inner 0 := by
  have single (kind : NodeKind) : (enclose kind take (.done true)).Inner 0 :=
    inner_enclose inner_take _ _ rfl
  have named : name.Inner := inner_enclose inner_take
  unfold atomAt
  split
  case h_5 =>
    split
    · exact inner_enclose (inner_tokenThen inner_take) _ _ rfl
    · rfl
  case h_9 => exact inner_enclose (inner_tokenThen (inner_either named (inner_missing _))) _ _ rfl
  case h_10 => exact inner_parenthesized _ _ rfl
  case h_11 | h_12 => exact inner_collection (by simp) _ _ _ rfl
  case h_13 => exact inner_enclose (inner_again (by simp)) _ _ rfl
  case h_14 => rfl
  all_goals exact single _

variable {routine : Routine} {passage : Passage}

theorem inner_extended {condition : Glance → Bool} {kind : NodeKind} (inside : routine ≠ .item)
    (tail : passage.Inner) : (extended routine condition kind passage).Inner 0 := by
  refine fun mark => ⟨inside, fun answer => ?_⟩
  cases answer with
  | true => exact inner_when (inner_encloseFrom tail) _ _ rfl
  | false => rfl

theorem inner_grown {round : Nat → Round} (inside : routine ≠ .item)
    (rounds : ∀ mark, round mark ≠ .item) : (grown routine round).Inner 0 := by
  refine fun mark => ⟨inside, fun answer => ?_⟩
  cases answer with
  | true => exact ⟨rounds mark, rfl⟩
  | false => rfl

theorem inner_growing {mark : Nat} {growth : Glance → Option (NodeKind × Passage)}
    (tails : ∀ glance kind passage, growth glance = some (kind, passage) → passage.Inner) :
    (growing mark growth).Inner 0 := by
  intro glance
  simp only
  split
  · rfl
  · rename_i kind passage chosen
    exact inner_encloseFrom (tails glance kind passage chosen) _ _ rfl

theorem inner_growing_if {mark : Nat} {condition : Glance → Bool} {kind : NodeKind}
    (tail : passage.Inner) :
    (growing mark fun glance => if condition glance then some (kind, passage) else none).Inner
      0 := by
  refine inner_growing fun glance kind passage chosen => ?_
  simp only [Option.ite_none_right_eq_some, Option.some.injEq, Prod.mk.injEq] at chosen
  obtain ⟨-, -, rfl⟩ := chosen
  exact tail

theorem inner_asLongAs {condition : Glance → Bool} (inside : passage.Inner) :
    (asLongAs condition passage).Inner 0 := by
  intro glance
  simp only
  split
  · exact inside _ _ rfl
  · rfl

end Program

open Passage

theorem Routine.inner_code {routine : Routine} (inner : routine ≠ .item) : routine.code.Inner 0 := by
  cases routine with
  | item => contradiction
  | expression | binary | application | access =>
      exact Program.inner_grown (by simp) (by simp)
  | ascription | function =>
      exact Program.inner_extended (by simp) (inner_tokenThen (inner_require (by simp) _))
  | atom => exact Program.inner_atomAt

theorem Round.inner_code {round : Round} (inner : round ≠ .item) : round.code.Inner 0 := by
  cases round with
  | item => contradiction
  | element => exact Program.inner_asLongAs inner_listItem
  | entry => exact Program.inner_asLongAs inner_recordItem
  | case => exact Program.inner_asLongAs inner_patternCase
  | clause =>
      exact Program.inner_growing_if
        (inner_tokenThen (inner_either inner_bound (inner_missing _)))
  | argument => exact Program.inner_growing_if (inner_allow (by simp))
  | field =>
      exact Program.inner_growing_if
        (inner_tokenThen (inner_either (inner_enclose inner_take) (inner_missing _)))
  | operation power mark =>
      refine Program.inner_growing fun glance kind passage chosen => ?_
      split at chosen
      · contradiction
      · rename_i operator right _
        obtain ⟨-, rfl⟩ := Prod.mk.inj (Option.some.inj chosen)
        have symbol : (enclose .operator take).Inner := inner_enclose inner_take
        have operand : (require (.binary right) ⟨.missingOperand, by simp⟩).Inner :=
          inner_require (by simp) _
        exact inner_sequence (by simp [symbol, operand])

/-- The programs of the calls that are being run are inner, and finish a number of nodes once they
are gone on with. -/
def Owed : List Activation → Nat → Prop
  | [], unfinished => unfinished = 0
  | activation :: stack, unfinished => ∃ first rest, unfinished = first + rest ∧
      (∀ answer, (activation.next answer).Inner first) ∧ Owed stack rest

/-- All that the machine is yet to do is inner, and will finish just the nodes that were begun
inside of those in `base`. -/
inductive Inner (base : List (NodeKind × Nat)) : Machine → Prop
  | intro {control : Program} {stack : List Activation} {state : State} {first rest : Nat}
      (own : List (NodeKind × Nat)) (begun : state.builder.begun = own ++ base)
      (balanced : own.length = first + rest) (inside : control.Inner first)
      (later : Owed stack rest) : Inner base ⟨control, stack, state⟩

variable {base : List (NodeKind × Nat)}

/-- The machine has the same nodes to finish after an action as before, or one more or less. -/
theorem Inner.perform {action : Action} {continuation : Program} {stack : List Activation}
    {after : State} (inner : Inner base ⟨.perform action continuation, stack, state⟩)
    (acted : state.perform? action = some after) : Inner base ⟨continuation, stack, after⟩ := by
  obtain ⟨own, begun, balanced, inside, later⟩ := inner
  cases action with
  | flush | bump | missing | reject =>
      obtain rfl := Option.some.inj acted
      exact ⟨own, begun, balanced, inside.2, later⟩
  | start kind =>
      obtain rfl := Option.some.inj acted
      refine ⟨(kind, state.settle.builder.mark) :: own, ?_, ?_, inside, later⟩
      · simp [Builder.start, State.settle, State.place, Builder.add, begun]
      · rw [List.length_cons, balanced, Nat.add_right_comm]
  | startAt mark kind =>
      obtain ⟨builder, started, rfl⟩ := Option.map_eq_some_iff.mp acted
      simp only [Builder.startAt?, Option.ite_none_right_eq_some, Option.some.injEq] at started
      obtain ⟨-, rfl⟩ := started
      refine ⟨(kind, mark) :: own, by simp [begun], ?_, inside, later⟩
      rw [List.length_cons, balanced, Nat.add_right_comm]
  | finish =>
      obtain ⟨builder, finished, rfl⟩ := Option.map_eq_some_iff.mp acted
      obtain ⟨outer, rfl, inside⟩ := inside
      cases own with
      | nil =>
          simp only [List.length_nil] at balanced
          omega
      | cons innermost own =>
          simp only [Builder.finish?, begun, List.cons_append, Option.some.injEq] at finished
          obtain rfl := finished
          simp only [List.length_cons] at balanced
          exact ⟨own, rfl, by omega, inside, later⟩

theorem Inner.step (inner : machine.Inner base) (stepped : Step machine next) :
    next.Inner base := by
  obtain ⟨control, stack, state⟩ := machine
  cases control with
  | perform action continuation =>
      obtain ⟨after, acted, rfl⟩ := Option.map_eq_some_iff.mp stepped
      exact inner.perform acted
  | done answer =>
      obtain ⟨own, begun, balanced, inside, later⟩ := inner
      cases stack with
      | nil => contradiction
      | cons activation stack =>
          obtain rfl := Option.some.inj stepped
          obtain ⟨first, rest, rfl, continued, later⟩ := later
          obtain rfl : _ = 0 := inside
          refine ⟨own, ?_, by omega, continued answer, later⟩
          rw [← begun]
          split <;> rfl
  | look | mark =>
      obtain ⟨own, begun, balanced, inside, later⟩ := inner
      obtain rfl := Option.some.inj stepped
      exact ⟨own, begun, balanced, inside _, later⟩
  | call routine continuation =>
      obtain ⟨own, begun, balanced, inside, later⟩ := inner
      obtain rfl := Option.some.inj stepped
      have code := Routine.inner_code inside.1
      rcases enter_cases routine continuation stack state with
        ⟨after, -, same, refused⟩ | ⟨-, -, entered⟩ | ⟨-, entered⟩
      · rw [refused]
        exact ⟨own, same.trans begun, balanced, inside.2 false, later⟩
      all_goals
        rw [entered]
        exact ⟨own, begun, balanced.trans (Nat.zero_add _).symm, code, _, _, rfl, inside.2, later⟩
  | again round continuation =>
      obtain ⟨own, begun, balanced, inside, later⟩ := inner
      obtain rfl := Option.some.inj stepped
      refine ⟨own, begun, balanced.trans (Nat.zero_add _).symm, Round.inner_code inside.1, _, _, rfl,
        fun more => ?_, later⟩
      cases more with
      | true => exact inside
      | false => exact inside.2

/-- The rest of the program after the last item. -/
def closing : Program :=
  .perform .flush (.perform .finish (.done true))

/-- A round of the outermost loop that is being run. -/
def outer : Activation :=
  ⟨none, fun more => if more then .sourceFile else closing⟩

/-- A call for an item that is being run. -/
def itemCall (left : Nat) : Activation :=
  ⟨some .item, fun _ => .unlessStalled left⟩

theorem unexpected_ordinary (text : Text) : SyntaxFault.unexpected text ≠ .nestedTooDeeply := by
  simp

/-- An item or a word that begins none, then the check that something was used up. -/
def itemOrWord (left : Nat) : Program :=
  Passage.either (·.seesExpression) (Passage.allow .item)
    (Passage.reject fun text => ⟨.unexpected text, unexpected_ordinary text⟩)
    (.unlessStalled left)

open State (Ready)

/-- The node of a document, from its first tree on. -/
def rootBegun : List (NodeKind × Nat) :=
  [(.sourceFile, 0)]

/-- Between items no call that nests is being run, and no node but that of the document is open. -/
structure State.Between (state : State) : Prop where
  ready : Ready Grammar.depthLimit state
  begun : state.builder.begun = rootBegun

/-- Where the machine can be on its way through a document. -/
inductive Phase : Machine → Prop
  | loop {state : State} (between : state.Between) : Phase ⟨.sourceFile, [], state⟩
  | round {state : State} (between : state.Between) : Phase ⟨.sourceItem, [outer], state⟩
  | choice {state : State} (between : state.Between) (inside : state.cursor.atEnd = false) :
      Phase ⟨itemOrWord state.cursor.glance.left, [outer], state⟩
  | call {state : State} (between : state.Between)
      (seen : state.cursor.seesExpression = true) :
      Phase ⟨.call .item fun _ => .unlessStalled state.cursor.glance.left, [outer], state⟩
  /-- The call for an item that starts here is being run. -/
  | item {state : State} {machine : Machine} (between : state.Between)
      (seen : state.cursor.seesExpression = true)
      (run : Steps ⟨Routine.item.code, [], state⟩ machine) (inner : machine.Inner rootBegun) :
      Phase (machine.on [itemCall state.cursor.glance.left, outer])
  | word {state : State} (between : state.Between)
      (inside : state.cursor.atEnd = false) (unseen : state.cursor.seesExpression = false) :
      Phase ⟨Passage.reject (fun text => ⟨.unexpected text, by simp⟩)
        (.unlessStalled state.cursor.glance.left), [outer], state⟩
  | check {state : State} {left : Nat} (between : state.Between)
      (progress : state.cursor.glance.left ≠ left) : Phase ⟨.unlessStalled left, [outer], state⟩
  | back {state : State} (more : Bool) (between : state.Between) :
      Phase ⟨.done more, [outer], state⟩
  | closing {state : State} (begun : state.builder.begun = rootBegun) : Phase ⟨closing, [], state⟩
  | finish {state : State} (begun : state.builder.begun = rootBegun) :
      Phase ⟨.perform .finish (.done true), [], state⟩
  | ended {state : State} : Phase ⟨.done true, [], state⟩

/-- The call for an item comes back once something is used up. -/
theorem item_ended {answer : Bool} (between : state.Between)
    (seen : state.cursor.seesExpression = true)
    (run : Steps ⟨Routine.item.code, [], state⟩ machine) (control : machine.control = .done answer)
    (stack : machine.stack = []) :
    machine.state.Between ∧
      machine.state.cursor.glance.left ≠ state.cursor.glance.left := by
  have ready := between.ready
  have begun := words_ne_nil_of_seesExpression seen
  have inside : state.cursor.atEnd = false := by simpa [Cursor.atEnd] using begun
  have whole := item_code_realizes state ready (ready.sound.shallow begun) []
  have same := whole.eq_of_halted rfl run (by simp [step, control, stack])
  have placed : machine.state = state.place (Grammar.sourceItem state.cursor) := by
    simp [same, Grammar.sourceItem, seen]
  have sameDepth : machine.state.depth = state.depth := by simp [placed, State.place]
  refine ⟨⟨run.ready ready sameDepth, ?_⟩, ?_⟩
  · rw [placed]
    exact between.begun
  · rw [placed]
    exact left_sourceItem_ne inside

theorem Phase.step (phase : Phase machine) (stepped : Step machine next) : Phase next := by
  cases phase with
  | loop between =>
      obtain rfl := Option.some.inj stepped
      exact .round between
  | @round state between =>
      obtain rfl := Option.some.inj stepped
      cases ended : state.cursor.atEnd with
      | true => simpa [Cursor.glance_atEnd, ended] using Phase.back false between
      | false => simpa [Cursor.glance_atEnd, ended, itemOrWord] using Phase.choice between ended
  | @choice state between inside =>
      obtain rfl := Option.some.inj stepped
      cases seen : state.cursor.seesExpression with
      | true => simpa [Cursor.glance_seesExpression, seen, allow] using Phase.call between seen
      | false => simpa [Cursor.glance_seesExpression, seen] using Phase.word between inside seen
  | call between seen =>
      obtain rfl := Option.some.inj stepped
      refine .item between seen .refl ⟨[], between.begun, rfl, ?_, rfl⟩
      exact Program.inner_extended (by simp) (inner_tokenThen (inner_require (by simp) _))
  | @item state machine between seen run inner =>
      rcases stepped.of_on with ⟨later, innerStep, rfl⟩ | ⟨answer, control, stack⟩
      · exact .item between seen (run.tail innerStep) (inner.step innerStep)
      · obtain ⟨between, progress⟩ := item_ended between seen run control stack
        obtain ⟨_, _, state⟩ := machine
        subst control stack
        obtain rfl := Option.some.inj stepped
        exact .check between progress
  | @word state between inside unseen =>
      have moved : Steps _ next := .single stepped
      obtain rfl := Option.some.inj stepped
      refine .check ⟨moved.ready between.ready rfl, between.begun⟩ ?_
      have progress := left_sourceItem_ne inside
      simpa [Grammar.sourceItem, unseen] using progress
  | @check state left between progress =>
      obtain rfl := Option.some.inj stepped
      simpa [progress] using Phase.back true between
  | back more between =>
      obtain rfl := Option.some.inj stepped
      cases more with
      | true => exact .loop between
      | false => exact .closing between.begun
  | closing begun =>
      obtain rfl := Option.some.inj stepped
      exact .finish begun
  | finish =>
      obtain ⟨after, -, rfl⟩ := Option.map_eq_some_iff.mp stepped
      exact .ended
  | ended => contradiction

theorem Steps.phase {text : Text} (reached : Steps (start text) machine) : Phase machine := by
  induction reached with
  | refl => exact .loop ⟨start_ready text, rfl⟩
  | tail earlier stepped inductionHypothesis => exact inductionHypothesis.step stepped

/-- The node of the document is open until the machine stops. -/
theorem Phase.rooted (phase : Phase machine) (stepped : Step machine next) :
    rootBegun <:+ machine.state.builder.begun := by
  cases phase with
  | loop between | round between | choice between | call between | word between | check between
  | back _ between => exact between.begun ▸ List.suffix_refl _
  | item between seen run inner =>
      obtain ⟨own, begun, -, -, -⟩ := inner
      exact ⟨own, begun.symm⟩
  | closing begun | finish begun => exact begun ▸ List.suffix_refl _
  | ended => contradiction

/-- No token is ever skipped by force. -/
theorem Phase.action_ne_skip {action : Action} {next : Program} (phase : Phase machine)
    (acting : machine.control = .perform action next) : action ≠ .skip := by
  cases phase with
  | item between seen run inner =>
      obtain ⟨own, begun, balanced, inside, later⟩ := inner
      obtain rfl := acting
      exact inside.action_ne_skip
  | word =>
      have rejected : (reject fun text => ⟨.unexpected text, by simp⟩).Inner :=
        inner_reject [] (by simp)
      obtain ⟨rfl, -⟩ := Program.perform.inj acting
      exact (rejected (.done true) 0 rfl).1
  | closing | finish =>
      obtain ⟨rfl, -⟩ := Program.perform.inj acting
      exact Action.noConfusion
  | _ => exact Program.noConfusion acting

/-- Items are called for with no call that nests being run. -/
theorem Phase.ready_of_call {next : Bool → Program} (phase : Phase machine)
    (called : machine.control = .call .item next) : Ready Grammar.depthLimit machine.state := by
  cases phase with
  | call between => exact between.ready
  | item between seen run inner =>
      obtain ⟨own, begun, balanced, inside, later⟩ := inner
      obtain rfl := called
      exact absurd rfl inside.1
  | _ => exact Program.noConfusion called

/-- The outermost loop is run with no call that nests being run. -/
theorem Phase.ready_of_again {next : Program} (phase : Phase machine)
    (looping : machine.control = .again .item next) : Ready Grammar.depthLimit machine.state := by
  cases phase with
  | loop between => exact between.ready
  | item between seen run inner =>
      obtain ⟨own, begun, balanced, inside, later⟩ := inner
      obtain rfl := looping
      exact absurd rfl inside.1
  | _ => exact Program.noConfusion looping

end Machine

end Scrapscript
