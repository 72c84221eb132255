import Scrapscript.Proofs.Machine.Outermost

/-!
The calls that a parse makes to the builder, one by one: it adds tokens one at a time, and begins
and finishes nodes. What the machine places in one step it puts down piece by piece. Each of these
calls is obeyed, and made while the node of the document is open.
-/

namespace Scrapscript

namespace Builder

inductive Call where
  | token (token : Token)
  | start (kind : NodeKind)
  | startAt (mark : Nat) (kind : NodeKind)
  | finish

/-- What the builder makes of a call. It refuses a token outside of all nodes, a node at a mark that
is no longer good, and to finish a node when none is begun. -/
def obey? (builder : Builder) : Call → Option Builder
  | .token token => if builder.begun.isEmpty then none else some (builder.add [.leaf token])
  | .start kind => some (builder.start kind)
  | .startAt mark kind => builder.startAt? mark kind
  | .finish => builder.finish?

def run? (builder : Builder) : List Call → Option Builder
  | [] => some builder
  | call :: calls => (builder.obey? call).bind (·.run? calls)

/-- Calls that the builder obeys one after the other, each while the nodes in `base` are open. -/
inductive Obeys (base : List (NodeKind × Nat)) : Builder → List Call → Builder → Prop
  | nothing {builder : Builder} : Obeys base builder [] builder
  | call {builder middle final : Builder} {call : Call} {calls : List Call}
      (opened : base <:+ builder.begun) (obeyed : builder.obey? call = some middle)
      (later : Obeys base middle calls final) : Obeys base builder (call :: calls) final

variable {base : List (NodeKind × Nat)} {builder middle final : Builder} {first second : List Call}

theorem Obeys.single {call : Call} (opened : base <:+ builder.begun)
    (obeyed : builder.obey? call = some final) : Obeys base builder [call] final :=
  .call opened obeyed .nothing

theorem Obeys.append (obeys : Obeys base builder first middle)
    (later : Obeys base middle second final) : Obeys base builder (first ++ second) final := by
  induction obeys with
  | nothing => exact later
  | call opened obeyed _ inductionHypothesis =>
      exact .call opened obeyed (inductionHypothesis later)

theorem Obeys.run? (obeys : Obeys base builder first final) : builder.run? first = some final := by
  induction obeys with
  | nothing => rfl
  | call _ obeyed _ inductionHypothesis =>
      rw [Builder.run?, obeyed, Option.bind_some, inductionHypothesis]

/-- Where a call is made, the calls before it have been obeyed, it is obeyed as well, and the nodes in
`base` are open. -/
theorem Obeys.exists_before {calls before after : List Call} {call : Call}
    (obeys : Obeys base builder calls final) (split : calls = before ++ call :: after) :
    ∃ middle, builder.run? before = some middle ∧ (middle.obey? call).isSome = true ∧
      base <:+ middle.begun := by
  induction obeys generalizing before with
  | nothing => simp at split
  | @call builder middle final first others opened obeyed later inductionHypothesis =>
      cases before with
      | nil =>
          obtain ⟨rfl, -⟩ := List.cons.inj split
          exact ⟨builder, rfl, by rw [obeyed]; rfl, opened⟩
      | cons _ before =>
          obtain ⟨rfl, rest⟩ := List.cons.inj split
          obtain ⟨between, ran, obeyedThere, openedThere⟩ := inductionHypothesis rest
          have reached : builder.run? (first :: before) = some between := by
            rw [Builder.run?, obeyed, Option.bind_some, ran]
          exact ⟨between, reached, obeyedThere, openedThere⟩

end Builder

open Builder (Call Obeys)

namespace Tree

mutual

/-- The calls that put down a tree piece by piece. -/
def calls : Tree → List Call
  | leaf token => [.token token]
  | node kind children => .start kind :: (callsOf children ++ [.finish])

def callsOf : List Tree → List Call
  | [] => []
  | first :: rest => first.calls ++ callsOf rest

end

variable {base : List (NodeKind × Nat)}

mutual

/-- Inside of an open node any tree can be put down piece by piece. -/
theorem obeys_calls (some : base ≠ []) : (tree : Tree) → (builder : Builder) →
    base <:+ builder.begun → Obeys base builder tree.calls (builder.add [tree])
  | leaf token, builder, opened => by
      have inside : builder.begun.isEmpty = false := by
        rw [List.isEmpty_eq_false_iff]
        rintro outside
        exact some (List.suffix_nil.mp (outside ▸ opened))
      exact .single opened (by simp [Builder.obey?, inside])
  | node kind children, builder, opened => by
      have begun : base <:+ (builder.start kind).begun := opened.trans (List.suffix_cons _ _)
      have inside := obeys_callsOf some children (builder.start kind) begun
      exact .call opened rfl (inside.append (.single begun (Builder.finish?_start _ _ _)))

theorem obeys_callsOf (some : base ≠ []) : (row : List Tree) → (builder : Builder) →
    base <:+ builder.begun → Obeys base builder (callsOf row) (builder.add row)
  | [], builder, _ => by
      rw [Builder.add_nil]
      exact .nothing
  | first :: rest, builder, opened => by
      have later := obeys_callsOf some rest (builder.add [first]) opened
      rw [Builder.add_add] at later
      exact (obeys_calls some first builder opened).append later

end

end Tree

namespace Machine

variable {machine next final : Machine} {state after : State} {text : Text}

/-- The calls to the builder that an action stands for. -/
def Action.calls (state : State) : Action → List Call
  | .flush => Tree.callsOf (Phrase.blanks state.cursor).trees
  | .bump => Tree.callsOf (Phrase.take state.cursor).trees
  | .start kind => Tree.callsOf (Phrase.blanks state.cursor).trees ++ [.start kind]
  | .startAt mark kind => [.startAt mark kind]
  | .finish => [.finish]
  | .missing complaint => Tree.callsOf (Phrase.missing complaint.fault state.cursor).trees
  | .reject complaint =>
      Tree.callsOf (Phrase.reject (complaint state.cursor.nextText).fault state.cursor).trees

/-- The calls to the builder that the next step stands for. A mark is set after the blanks, and a
call at the nesting limit puts all that is left into an error node. -/
def calls (machine : Machine) : List Call :=
  match machine.control with
  | .perform action _ => action.calls machine.state
  | .mark _ => Action.flush.calls machine.state
  | .call routine _ =>
      if routine.nests && !machine.state.cursor.tooDeep
          && decide (Grammar.depthLimit ≤ machine.state.depth) then
        Tree.callsOf (Phrase.allow Rule.cutOff machine.state.cursor).trees
      else []
  | _ => []

theorem rootBegun_ne_nil : rootBegun ≠ [] :=
  List.cons_ne_nil _ _

section

variable (opened : rootBegun <:+ state.builder.begun)

include opened

theorem Action.obeys_calls {action : Action} (acted : state.perform? action = some after) :
    Obeys rootBegun state.builder (action.calls state) after.builder := by
  have placed (row : List Tree) := Tree.obeys_callsOf rootBegun_ne_nil row state.builder opened
  cases action with
  | flush | bump | missing | reject =>
      obtain rfl := Option.some.inj acted
      exact placed _
  | start kind =>
      obtain rfl := Option.some.inj acted
      exact (placed _).append (.single opened rfl)
  | startAt mark kind =>
      obtain ⟨builder, started, rfl⟩ := Option.map_eq_some_iff.mp acted
      exact .single opened started
  | finish =>
      obtain ⟨builder, finished, rfl⟩ := Option.map_eq_some_iff.mp acted
      exact .single opened finished

theorem obeys_enter (routine : Routine) (continuation : Bool → Program)
    (stack : List Activation) :
    Obeys rootBegun state.builder (calls ⟨.call routine continuation, stack, state⟩)
      (enter routine continuation stack state).state.builder := by
  have placed (row : List Tree) := Tree.obeys_callsOf rootBegun_ne_nil row state.builder opened
  cases nests : routine.nests with
  | false => simpa [calls, enter, nests] using Obeys.nothing
  | true =>
      cases deep : state.cursor.tooDeep with
      | true => simpa [calls, enter, nests, deep] using Obeys.nothing
      | false =>
          by_cases full : Grammar.depthLimit ≤ state.depth
          · simpa [calls, enter, nests, deep, full, State.cut, State.place] using
              placed (Phrase.allow Rule.cutOff state.cursor).trees
          · simpa [calls, enter, nests, deep, full, State.deeper] using Obeys.nothing

end

/-- A step makes its calls while the document's node is open, and they are obeyed. -/
theorem Step.obeys (stepped : Step machine next)
    (opened : rootBegun <:+ machine.state.builder.begun) :
    Obeys rootBegun machine.state.builder machine.calls next.state.builder := by
  obtain ⟨control, stack, state⟩ := machine
  cases control with
  | done answer =>
      cases stack with
      | nil => contradiction
      | cons activation stack =>
          obtain rfl := Option.some.inj stepped
          have kept : (leave answer activation stack state).state.builder = state.builder := by
            unfold leave
            split <;> rfl
          rw [kept]
          exact .nothing
  | perform action continuation =>
      obtain ⟨after, acted, rfl⟩ := Option.map_eq_some_iff.mp stepped
      exact Action.obeys_calls opened acted
  | look | again =>
      obtain rfl := Option.some.inj stepped
      exact .nothing
  | mark continuation =>
      obtain rfl := Option.some.inj stepped
      exact Tree.obeys_callsOf rootBegun_ne_nil _ _ opened
  | call routine continuation =>
      obtain rfl := Option.some.inj stepped
      exact obeys_enter opened routine continuation stack

/-- A run of the machine together with the calls to the builder that it makes. -/
inductive Builds : Machine → List Call → Machine → Prop
  | nothing {machine : Machine} : Builds machine [] machine
  | step {machine next final : Machine} {calls : List Call} (stepped : Step machine next)
      (later : Builds next calls final) : Builds machine (machine.calls ++ calls) final

theorem Steps.exists_builds (run : Steps machine final) : ∃ calls, Builds machine calls final := by
  induction run using Relation.ReflTransGen.head_induction_on with
  | refl => exact ⟨[], .nothing⟩
  | head stepped _ inductionHypothesis =>
      obtain ⟨calls, later⟩ := inductionHypothesis
      exact ⟨_, .step stepped later⟩

/-- Whatever the machine does on its way through a document, the builder obeys its calls. -/
theorem Builds.obeys {calls : List Call} (builds : Builds machine calls final)
    (reached : Steps (start text) machine) :
    Obeys rootBegun machine.state.builder calls final.state.builder := by
  induction builds with
  | nothing => exact .nothing
  | step stepped _ inductionHypothesis =>
      have now := stepped.obeys (reached.phase.rooted stepped)
      exact now.append (inductionHypothesis (reached.tail stepped))

end Machine

end Scrapscript
