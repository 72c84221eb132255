import Scrapscript.Proofs.Machine

/-!
Nesting costs words. Each word that is used up pays for two levels of nesting, a function and the
operation in it, and what is not paid for is a debt. Every routine is called with a debt that it
allows, and those that nest allow at most one level: when the nesting limit is hit, at least half as
many words are used up.
-/

namespace Scrapscript

theorem Glance.isSome_kind? {glance : Glance} {kind : TokenKind} (seen : glance.sees kind = true) :
    glance.kind?.isSome = true := by
  have known : glance.kind? = some kind := by simpa [sees] using seen
  rw [known]
  rfl

namespace Machine

/-- How many levels of nesting need not be paid for when the routine is called. -/
def Routine.allowance : Routine → Nat
  | item | expression | ascription | function => 0
  | binary _ => 1
  | application | access | atom => 2

def Round.allowance : Round → Nat
  | item | clause _ | element | entry => 0
  | operation _ _ | argument _ | field _ | case => 2

/-- The debt with which the code of a routine begins. -/
def Routine.debt (routine : Routine) : Nat :=
  if routine.nests then routine.allowance + 1 else routine.allowance

/-- A program that keeps to what routines and rounds allow. It runs with a debt, and knows whether
there is a word ahead; then taking it pays. -/
def Program.Solvent : Program → Nat → Bool → Prop
  | done _, _, _ => True
  | perform .bump next, debt, ahead => next.Solvent (if ahead then debt - 2 else debt) false
  | perform (.reject _) next, debt, _ => next.Solvent debt false
  | perform _ next, debt, ahead => next.Solvent debt ahead
  | look next, debt, _ => ∀ glance, (next glance).Solvent debt glance.kind?.isSome
  | mark next, debt, ahead => ∀ place, (next place).Solvent debt ahead
  | call routine next, debt, _ =>
      debt ≤ routine.allowance ∧ ∀ answer, (next answer).Solvent debt false
  | again round next, debt, _ => debt ≤ round.allowance ∧ next.Solvent debt false

namespace Program

open Passage

/-- Without a debt, a program need not care. -/
theorem solvent_zero (program : Program) (ahead : Bool) : program.Solvent 0 ahead := by
  induction program generalizing ahead with
  | done => trivial
  | perform action next inductionHypothesis =>
      cases action with
      | bump => cases ahead <;> exact inductionHypothesis false
      | reject => exact inductionHypothesis false
      | _ => exact inductionHypothesis ahead
  | look next inductionHypothesis => exact fun glance => inductionHypothesis glance _
  | mark next inductionHypothesis => exact fun place => inductionHypothesis place ahead
  | call routine next inductionHypothesis =>
      exact ⟨Nat.zero_le _, fun answer => inductionHypothesis answer false⟩
  | again round next inductionHypothesis => exact ⟨Nat.zero_le _, inductionHypothesis false⟩

/-- A word pays for all debt that routines and rounds allow. -/
theorem solvent_take (next : Program) {debt : Nat} (small : debt ≤ 2) :
    (take next).Solvent debt true := by
  have paid : debt - 2 = 0 := Nat.sub_eq_zero_of_le small
  simp only [take, Solvent, if_true, paid]
  exact next.solvent_zero false

theorem solvent_grown {routine : Routine} {round : Nat → Round} {debt : Nat}
    (call : debt ≤ routine.allowance) (rounds : ∀ mark, debt ≤ (round mark).allowance) :
    (grown routine round).Solvent debt false := by
  refine fun mark => ⟨call, fun found => ?_⟩
  cases found with
  | true => exact ⟨rounds mark, trivial⟩
  | false => trivial

/-- A round that goes on with a word if it goes on at all. -/
theorem solvent_growing {mark : Nat} {growth : Glance → Option (NodeKind × Passage)} {debt : Nat}
    (tails : ∀ glance kind passage, growth glance = some (kind, passage) →
      (passage (.perform .finish (.done true))).Solvent debt glance.kind?.isSome) :
    (growing mark growth).Solvent debt false := by
  intro glance
  simp only
  split
  · trivial
  · rename_i kind passage chosen
    exact tails glance kind passage chosen

theorem solvent_atomAt (glance : Glance) : (atomAt glance).Solvent 2 glance.kind?.isSome := by
  unfold atomAt
  split
  case h_5 seen =>
    split
    · rw [seen]
      exact solvent_take _ (Nat.le_refl _)
    · trivial
  case h_10 seen =>
    rw [seen]
    exact fun mark => solvent_take _ (Nat.le_refl _)
  case h_13 => exact ⟨Nat.le_refl _, trivial⟩
  case h_14 => trivial
  all_goals
    rename_i seen
    rw [seen]
    exact solvent_take _ (Nat.le_refl _)

end Program

open Passage

theorem Routine.solvent_code (routine : Routine) : routine.code.Solvent routine.debt false := by
  cases routine with
  | item | expression | ascription => exact Program.solvent_zero _ _
  | function =>
      refine fun mark => ⟨Nat.le_refl _, fun found => ?_⟩
      cases found with
      | false => trivial
      | true =>
          intro glance
          simp only
          split
          · rename_i seen
            rw [Glance.isSome_kind? seen]
            exact Program.solvent_take _ (by decide)
          · trivial
  | binary | application | access =>
      exact Program.solvent_grown (Nat.le_refl _) fun _ => Nat.le_refl _
  | atom => exact Program.solvent_atomAt

theorem Round.solvent_code (round : Round) : round.code.Solvent round.allowance false := by
  cases round with
  | item | clause | element | entry => exact Program.solvent_zero _ _
  | operation power mark =>
      refine Program.solvent_growing fun glance kind passage chosen => ?_
      cases next : glance.kind? with
      | none => simp [Glance.operatorAt?, next] at chosen
      | some operator =>
          split at chosen
          · contradiction
          · obtain ⟨-, rfl⟩ := Prod.mk.inj (Option.some.inj chosen)
            exact Program.solvent_take _ (Nat.le_refl _)
  | argument mark =>
      refine Program.solvent_growing fun glance kind passage chosen => ?_
      obtain ⟨-, chosen⟩ := Option.ite_none_right_eq_some.mp chosen
      obtain ⟨-, rfl⟩ := Prod.mk.inj (Option.some.inj chosen)
      exact ⟨Nat.le_refl _, fun _ => trivial⟩
  | field mark =>
      refine Program.solvent_growing fun glance kind passage chosen => ?_
      obtain ⟨seen, chosen⟩ := Option.ite_none_right_eq_some.mp chosen
      obtain ⟨-, rfl⟩ := Prod.mk.inj (Option.some.inj chosen)
      rw [Glance.isSome_kind? seen]
      exact Program.solvent_take _ (Nat.le_refl _)
  | case =>
      intro glance
      simp only
      split
      · rename_i seen
        rw [Glance.isSome_kind? seen]
        exact Program.solvent_take _ (Nat.le_refl _)
      · trivial

variable {machine next : Machine} {state after : State} {total : Nat}

/-- Whatever the calls that are being run go on with, they keep to what is allowed. -/
inductive Backed (total words : Nat) : List Activation → Prop
  | nil : Backed total words []
  | cons {activation : Activation} {stack : List Activation} (debt : Nat)
      (solvent : ∀ answer, (activation.next answer).Solvent debt false)
      (paid : stack.countP Activation.nests + 2 * words ≤ 2 * total + debt)
      (below : Backed total words stack) : Backed total words (activation :: stack)

theorem Backed.mono {words fewer : Nat} {stack : List Activation}
    (backed : Backed total words stack) (less : fewer ≤ words) : Backed total fewer stack := by
  induction backed with
  | nil => exact .nil
  | cons debt solvent paid below inductionHypothesis =>
      exact .cons debt solvent (by omega) inductionHypothesis

/-- Of `total` words, those that are used up pay for the calls that are being run, up to a debt with
which the machine can go on. -/
structure Owes (total : Nat) (machine : Machine) (debt : Nat) (ahead : Bool) : Prop where
  solvent : machine.control.Solvent debt ahead
  begun : ahead = true → machine.state.cursor.words ≠ []
  paid : machine.nesting + 2 * machine.state.cursor.words.length ≤ 2 * total + debt
  backed : Backed total machine.state.cursor.words.length machine.stack

theorem State.Shifts.length_words_le {cursor rest : Cursor} (shifts : Shifts cursor rest) :
    rest.words.length ≤ cursor.words.length := by
  have advanced (cursor : Cursor) :
      (Phrase.take cursor).rest.words.length ≤ cursor.words.length := by
    cases next : cursor.words with
    | nil => simp [Phrase.take, Phrase.blanks, next]
    | cons word more => simp [Phrase.take_eq next, Cursor.advanced_eq next]
  cases shifts with
  | still | settled | missing => exact Nat.le_refl _
  | taken => exact advanced cursor
  | rejected => exact advanced _
  | cut =>
      have ended : (Phrase.allow Rule.cutOff cursor).rest.words = [] :=
        (Rule.cutOff_builds (fun _ _ => True) cursor).2.1
      simp [ended]

/-- Taking a word that is ahead uses it up. -/
theorem length_words_taken {cursor : Cursor} (begun : cursor.words ≠ []) :
    (Phrase.take cursor).rest.words.length + 1 = cursor.words.length := by
  obtain ⟨word, more, next⟩ := List.exists_cons_of_ne_nil begun
  simp [Phrase.take_eq next, Cursor.advanced_eq next, next]

/-- After an action the debt is what the rest of the program runs with. -/
theorem Owes.perform {action : Action} {continuation : Program} {stack : List Activation}
    {debt : Nat} {ahead : Bool}
    (owes : Owes total ⟨.perform action continuation, stack, state⟩ debt ahead)
    (acted : state.perform? action = some after) :
    ∃ debt ahead, Owes total ⟨continuation, stack, after⟩ debt ahead := by
  obtain ⟨solvent, begun, paid, backed⟩ := owes
  have less := (State.Moves.act action acted).shifts.length_words_le
  simp only [nesting] at begun paid backed
  have still (same : after.cursor.words = state.cursor.words)
      (solvent : continuation.Solvent debt ahead) :
      ∃ debt ahead, Owes total ⟨continuation, stack, after⟩ debt ahead :=
    ⟨debt, ahead, solvent, by simpa [same] using begun, by simpa [nesting, same] using paid,
      backed.mono less⟩
  cases action with
  | flush | start | missing =>
      obtain rfl := Option.some.inj acted
      exact still rfl solvent
  | startAt | finish =>
      obtain ⟨builder, -, rfl⟩ := Option.map_eq_some_iff.mp acted
      exact still rfl solvent
  | reject =>
      refine ⟨debt, false, solvent, by simp, ?_, backed.mono less⟩
      simp only [nesting]
      omega
  | bump =>
      refine ⟨_, false, solvent, by simp, ?_, backed.mono less⟩
      obtain rfl := Option.some.inj acted
      cases ahead with
      | false => simp only [nesting]; exact Nat.le_trans (by omega) paid
      | true =>
          have taken := length_words_taken (begun rfl)
          simp only [nesting, State.place, if_true]
          omega

theorem Owes.step {debt : Nat} {ahead : Bool} (owes : Owes total machine debt ahead)
    (stepped : Step machine next) : ∃ debt ahead, Owes total next debt ahead := by
  obtain ⟨control, stack, state⟩ := machine
  cases control with
  | perform action continuation =>
      obtain ⟨after, acted, rfl⟩ := Option.map_eq_some_iff.mp stepped
      exact owes.perform acted
  | done answer =>
      cases stack with
      | nil => contradiction
      | cons activation stack =>
          obtain rfl := Option.some.inj stepped
          obtain ⟨⟩ | ⟨debt, solvent, paid, below⟩ := owes.backed
          have same : (leave answer activation stack state).state.cursor = state.cursor := by
            simp only [leave]
            split <;> rfl
          exact ⟨debt, false, solvent answer, by simp, by rw [same]; exact paid,
            by rw [same]; exact below⟩
  | look continuation =>
      obtain rfl := Option.some.inj stepped
      refine ⟨debt, _, owes.solvent _, fun seen => ?_, owes.paid, owes.backed⟩
      intro ended
      simp [Cursor.glance, Cursor.kind?, show state.cursor.words = [] from ended] at seen
  | mark continuation =>
      obtain rfl := Option.some.inj stepped
      exact ⟨debt, ahead, owes.solvent _, owes.begun, owes.paid, owes.backed⟩
  | again round continuation =>
      obtain rfl := Option.some.inj stepped
      obtain ⟨allowed, solvent⟩ := owes.solvent
      have paid := owes.paid
      simp only [nesting] at paid
      refine ⟨_, false, round.solvent_code, by simp, ?_, .cons debt ?_ paid owes.backed⟩
      · simp only [nesting, List.countP_cons, Activation.nests, Option.any_none]
        simp
        omega
      · intro more
        cases more with
        | true => exact ⟨allowed, solvent⟩
        | false => exact solvent
  | call routine continuation =>
      obtain rfl := Option.some.inj stepped
      obtain ⟨allowed, solvent⟩ := owes.solvent
      have paid := owes.paid
      simp only [nesting] at paid
      have less := (moves_enter routine continuation stack state).shifts.length_words_le
      have entered : stack.countP Activation.nests + 2 * state.cursor.words.length ≤
          2 * total + routine.allowance := by omega
      rcases enter_cases routine continuation stack state with
        ⟨after, -, -, refused⟩ | ⟨nests, -, inside⟩ | ⟨plain, inside⟩
      · rw [refused] at less ⊢
        refine ⟨debt, false, solvent false, by simp, ?_, owes.backed.mono less⟩
        simp only [nesting] at less ⊢
        omega
      · rw [inside]
        refine ⟨_, false, routine.solvent_code, by simp, ?_, .cons debt solvent paid owes.backed⟩
        simp only [nesting, List.countP_cons, Activation.nests, Option.any_some, nests, if_true,
          Routine.debt, State.deeper]
        omega
      · rw [inside]
        refine ⟨_, false, routine.solvent_code, by simp, ?_, .cons debt solvent paid owes.backed⟩
        simpa [nesting, Activation.nests, plain, Routine.debt] using entered

theorem start_owes (text : Text) :
    Owes (start text).state.cursor.words.length (start text) 0 false :=
  ⟨Program.solvent_zero _ _, nofun, Nat.zero_add _ ▸ Nat.le_refl _, .nil⟩

theorem Steps.owes {debt : Nat} {ahead : Bool} (run : Steps machine next)
    (owes : Owes total machine debt ahead) : ∃ debt ahead, Owes total next debt ahead := by
  induction run with
  | refl => exact ⟨debt, ahead, owes⟩
  | tail earlier stepped inductionHypothesis =>
      obtain ⟨debt, ahead, owes⟩ := inductionHypothesis
      exact owes.step stepped

theorem State.perform?_tooDeep {action : Action} (acted : state.perform? action = some after) :
    after.cursor.tooDeep = state.cursor.tooDeep := by
  have taken (cursor : Cursor) : (Phrase.take cursor).rest.tooDeep = cursor.tooDeep := by
    unfold Phrase.take
    split
    · rfl
    · exact cursor.advanced_tooDeep
  cases action with
  | flush | start | missing =>
      obtain rfl := Option.some.inj acted
      rfl
  | bump | reject =>
      obtain rfl := Option.some.inj acted
      exact taken _
  | startAt | finish =>
      obtain ⟨builder, -, rfl⟩ := Option.map_eq_some_iff.mp acted
      rfl

/-- Only a call that is refused at the limit cuts a parse off. -/
theorem Step.call_of_cut (stepped : Step machine next)
    (shallow : machine.state.cursor.tooDeep = false) (deep : next.state.cursor.tooDeep = true) :
    ∃ routine continuation, machine.control = .call routine continuation ∧
      routine.nests = true ∧ Grammar.depthLimit ≤ machine.state.depth := by
  obtain ⟨control, stack, state⟩ := machine
  have unchanged (same : next.state.cursor.tooDeep = state.cursor.tooDeep) : False :=
    Bool.false_ne_true (shallow.symm.trans (same.symm.trans deep))
  cases control with
  | done answer =>
      cases stack with
      | nil => contradiction
      | cons activation stack =>
          obtain rfl := Option.some.inj stepped
          refine (unchanged ?_).elim
          simp only [leave]
          split <;> rfl
  | perform action continuation =>
      obtain ⟨after, acted, rfl⟩ := Option.map_eq_some_iff.mp stepped
      exact (unchanged (State.perform?_tooDeep acted)).elim
  | look | mark | again =>
      obtain rfl := Option.some.inj stepped
      exact (unchanged rfl).elim
  | call routine continuation =>
      obtain rfl := Option.some.inj stepped
      refine ⟨routine, continuation, rfl, ?_⟩
      have shallow : state.cursor.tooDeep = false := shallow
      refine Decidable.byContradiction fun entered => unchanged ?_
      simp only [enter, shallow]
      split
      · rename_i nests
        have room : ¬ Grammar.depthLimit ≤ state.depth := fun full => entered ⟨nests, full⟩
        rw [if_neg Bool.false_ne_true, if_neg room]
        exact shallow
      · exact shallow

/-- Where a parse of `total` words is cut off, at least half as many of them are used up as there
may be levels of nesting. -/
theorem Step.words_of_cut (stepped : Step machine next) (counted : machine.Counted)
    {debt : Nat} {ahead : Bool} (owes : Owes total machine debt ahead)
    (shallow : machine.state.cursor.tooDeep = false) (deep : next.state.cursor.tooDeep = true) :
    machine.state.cursor.words.length + Grammar.depthLimit / 2 ≤ total := by
  obtain ⟨routine, continuation, calling, nests, full⟩ := stepped.call_of_cut shallow deep
  have solvent := owes.solvent
  rw [calling] at solvent
  have small : routine.allowance ≤ 1 := by
    cases routine with
    | function | binary => simp [Routine.allowance]
    | _ => contradiction
  have allowed := solvent.1
  have paid := owes.paid
  have depth := counted.depth
  simp only [Grammar.depthLimit] at full ⊢
  omega

end Machine

end Scrapscript
