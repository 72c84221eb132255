import Scrapscript.Proofs.Machine.Calls
import Scrapscript.Proofs.Progress

/-!
The tree of every document is built in order. The builder obeys every call that the machine makes,
each while the node of the document is open. A routine or a procedure, wherever it is begun, leaves
the open nodes as it found them and adds to them alone; what a routine has found is one node after
the blanks. In the end the node of the document is all that there is, so that the machine never gets
stuck.
-/

namespace Scrapscript

namespace Machine

open State (Ready)
open Passage (Realizes realizes_take realizes_expect)

variable {depth : Nat} {state : State} {text : Text} {machine : Machine}

/-- The pieces of the grammar that are passages of the program and give no answer. -/
inductive Procedure where
  | leaf (kind : NodeKind)
  | tag
  | parenthesized
  | spread
  | list
  | record
  | recordField
  | separator (closer : TokenKind)
  | patternMatch
  | binding

def Procedure.passage : Procedure → Passage
  | leaf kind => .enclose kind .take
  | tag => .enclose .tag (.sequence [.take, .tagName])
  | parenthesized => .parenthesized
  | spread => .spread
  | list => .collection .list .element .closeBracket
  | record => .collection .record .entry .closeBrace
  | recordField => .recordField
  | separator closer => .separator closer
  | patternMatch => .enclose .patternMatch (.again .case)
  | binding => .binding

/-- Whatever program follows and whatever calls are being run, the machine goes through the passage
and gets to a state. -/
def Passage.Ends (passage : Passage) (state after : State) : Prop :=
  ∀ next stack, Steps ⟨passage next, stack, state⟩ ⟨next, stack, after⟩

/-- A routine that must find something can be called for anywhere. Once the parse is cut off, the
call places next to nothing and what is missing is reported. -/
theorem Routine.Realizes.exists_require {routine : Routine} {rule : Rule}
    (realizes : routine.Realizes depth rule) (complaint : Complaint) (cursor : Cursor) :
    ∃ phrase, (Passage.require routine complaint).Realizes depth phrase cursor := by
  cases deep : cursor.tooDeep with
  | false => exact ⟨_, realizes.require deep⟩
  | true =>
      obtain ⟨phrase, fails⟩ := routine.fails
      refine ⟨Phrase.sequence [phrase, Phrase.missing complaint.fault], ?_⟩
      rintro state rfl ready next stack
      obtain ⟨ended, -⟩ := fails state deep (ready.sound.exhausted deep)
      refine (ended _ stack).tail ?_
      simp [Step, step, State.perform?, Phrase.sequence]

/-- A procedure places something wherever it is begun, whatever the tokens ahead. -/
theorem Procedure.exists_realizes (procedure : Procedure) (depth : Nat) (cursor : Cursor) :
    ∃ phrase, procedure.passage.Realizes depth phrase cursor := by
  have realized := realized_ofDepth depth
  cases procedure with
  | leaf kind => exact ⟨_, realizes_take.enclose⟩
  | tag => exact ⟨_, (realizes_take.followedBy realizes_tagName.only).enclose⟩
  | parenthesized =>
      obtain ⟨phrase, expression⟩ := (realizes_expression realized).exists_require
        ⟨.missingExpression, by simp⟩ (Phrase.take cursor.settled).rest
      exact ⟨_, realizes_parenthesized_of expression⟩
  | spread => exact ⟨_, realizes_spread realized⟩
  | list => exact ⟨_, realizes_list realized⟩
  | record => exact ⟨_, realizes_record realized⟩
  | recordField => exact ⟨_, realizes_recordField realized⟩
  | separator closer => exact ⟨_, realizes_separator closer⟩
  | patternMatch => exact ⟨_, (realizes_cases realized).enclose⟩
  | binding => exact ⟨_, realizes_binding realized⟩

theorem Program.Realizes.exists_adds {program : Program} {rule : Rule} {good : Tree → Cursor → Prop}
    (realizes : program.Realizes depth rule) (builds : rule.Builds good)
    (ready : Ready depth state) (shallow : state.cursor.tooDeep = false) :
    ∃ answer after, program.Ends state answer after ∧ state.Adds answer after :=
  ⟨_, _, realizes state ready shallow, adds_of_meets (builds state.cursor)⟩

/-- The program of a routine that nests comes to its end at every depth. -/
theorem Routine.code_adds {routine : Routine} (nests : routine.nests = true)
    (ready : Ready depth state) :
    ∃ answer after, routine.code.Ends state answer after ∧ state.Adds answer after := by
  have realized := realized_ofDepth depth
  have sound := Grammar.sound_ofDepth depth
  cases deep : state.cursor.tooDeep with
  | true =>
      obtain ⟨phrase, fails⟩ := routine.codeFails
      obtain ⟨ended, -⟩ := fails state deep (ready.sound.exhausted deep)
      exact ⟨false, _, ended, state.adds_place _⟩
  | false =>
      cases routine with
      | function =>
          exact (function_code_realizes realized).exists_adds (Grammar.function_builds sound) ready
            deep
      | binary power =>
          exact (binary_code_realizes realized power).exists_adds
            (Grammar.binary_builds sound power) ready deep
      | _ => contradiction

/-- Where the machine has not come to the end of the document, it goes on. -/
theorem ended_or_steps (reached : Steps (start text) machine) :
    machine = ended text ∨ ∃ next, Step machine next := by
  rcases Relation.ReflTransGen.cases_head (steps_ended reached) with same | ⟨next, stepped, -⟩
  · exact .inl same
  · exact .inr ⟨next, stepped⟩

/-- The calls made for a document are obeyed from the first one on, and leave its tree. -/
theorem exists_calls (text : Text) : ∃ calls, Builds (start text) calls (ended text) ∧
    Builder.empty.run? (.start .sourceFile :: calls) =
      some (Builder.empty.add [(Parse.ofText text).tree]) ∧
    ∀ before call after, calls = before ++ call :: after → ∃ builder,
      Builder.empty.run? (.start .sourceFile :: before) = some builder ∧
        (builder.obey? call).isSome = true ∧ rootBegun <:+ builder.begun := by
  obtain ⟨calls, builds⟩ := (start_steps text).exists_builds
  have obeys := builds.obeys .refl
  refine ⟨calls, builds, obeys.run?, fun before call after split => ?_⟩
  obtain ⟨builder, ran, obeyed, opened⟩ := obeys.exists_before split
  exact ⟨builder, ran, obeyed, opened⟩

/-- Every call to the builder is obeyed while the node of the document is open, and that node is all
that there is in the end. On its way there the machine never gets stuck; wherever it is, calls come
back and procedures come to their end with the same nodes open as before, what a call has found
being one node after the blanks. -/
theorem builds_in_order (text : Text) :
    (∃ calls, Builds (start text) calls (ended text) ∧
      Builder.empty.run? (.start .sourceFile :: calls) =
        some (Builder.empty.add [(Parse.ofText text).tree]) ∧
      ∀ before call after, calls = before ++ call :: after → ∃ builder,
        Builder.empty.run? (.start .sourceFile :: before) = some builder ∧
          (builder.obey? call).isSome = true ∧ rootBegun <:+ builder.begun) ∧
    (∃ children, (ended text).state.builder.tree? = some (.node .sourceFile children)) ∧
    ∀ machine, Steps (start text) machine →
      (machine = ended text ∨ ∃ next, Step machine next) ∧
      (∀ routine next, machine.control = .call routine next → ∃ answer after,
        routine.Ends machine.state answer after ∧
          after.builder.begun = machine.state.builder.begun ∧ machine.state.Adds answer after) ∧
      (∀ routine : Routine, routine.nests = true → machine.control = routine.code →
        ∃ answer after, routine.code.Ends machine.state answer after ∧
          after.builder.begun = machine.state.builder.begun ∧ machine.state.Adds answer after) ∧
      ∀ (procedure : Procedure) next, machine.control = procedure.passage next → ∃ after,
        procedure.passage.Ends machine.state after ∧
          after.builder.begun = machine.state.builder.begun := by
  refine ⟨exists_calls text, ⟨_, rfl⟩, fun machine reached => ?_⟩
  have ready := ready_of_reached reached
  refine ⟨ended_or_steps reached, fun routine next calling => ?_, fun routine nests _ => ?_,
    fun procedure _ _ => ?_⟩
  · obtain ⟨answer, after, ends, -, -, adds⟩ := call_progresses reached calling
    exact ⟨answer, after, ends, adds.begun, adds⟩
  · obtain ⟨answer, after, ends, adds⟩ := routine.code_adds nests ready
    exact ⟨answer, after, ends, adds.begun, adds⟩
  · obtain ⟨phrase, realizes⟩ := procedure.exists_realizes _ machine.state.cursor
    exact ⟨_, realizes machine.state rfl ready, rfl⟩

end Machine

end Scrapscript
