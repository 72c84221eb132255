import Scrapscript.Proofs.Machine.Cut
import Scrapscript.Proofs.Opening
import Scrapscript.Proofs.Progress

/-!
The nesting limit. The depth that the machine counts is the number of calls that nest; calls and
loops leave it as it was. A parse that exceeds the limit says so once, in an error node that takes
all words that are left, and it has used up many words by then.
-/

namespace Scrapscript

theorem SyntaxFault.message_eq_iff (fault : SyntaxFault) :
    fault.message = "expression is nested too deeply" ↔ fault = .nestedTooDeeply := by
  cases fault with
  | nestedTooDeeply => simp [message]
  | missingCloser closer => cases closer <;> simp [message, TokenKind.label]
  | unexpected text =>
      simp only [message, reduceCtorEq, iff_false]
      intro same
      have spelled := congrArg String.toList same
      simp at spelled
  | _ => simp [message]

namespace Machine

open Scrapscript.Parse (ofText)

variable {state : State} {machine : Machine} {text : Text}

theorem isCut_iff (error : SyntaxError) :
    error.isCut = true ↔ error.fault.message = "expression is nested too deeply" := by
  simp [SyntaxError.isCut, SyntaxFault.message_eq_iff]

theorem Cut.isCut_error {all : List Token} (cut : Cut all) : cut.error.isCut = true := by
  simp [SyntaxError.isCut, cut.fault]

theorem Cut.Among.countP {all : List Token} {cut : Cut all} {errors : List SyntaxError}
    (among : cut.Among errors) : errors.countP SyntaxError.isCut = 1 := by
  obtain ⟨later, earlier, rfl, empty, ordinary⟩ := among
  have first : later.countP SyntaxError.isCut = 0 :=
    List.countP_eq_zero.mpr fun error membership => by simp [(empty error membership).1]
  have last : earlier.countP SyntaxError.isCut = 0 :=
    List.countP_eq_zero.mpr fun error membership => by simp [ordinary error membership]
  rw [List.countP_append, List.countP_cons_of_pos cut.isCut_error, first, last]

theorem State.Accounts.countP {all : List Token} (accounts : state.Accounts all) :
    state.cursor.errors.countP SyntaxError.isCut = if state.cursor.tooDeep then 1 else 0 := by
  cases accounts with
  | shallow shallow ordinary =>
      simp only [shallow]
      exact List.countP_eq_zero.mpr fun error membership => by simp [ordinary error membership]
  | cut deep exhausted cut placed passed among =>
      rw [deep, if_pos rfl, among.countP]

theorem State.Accounts.tooDeep_iff {all : List Token} (accounts : state.Accounts all) :
    state.cursor.tooDeep = true ↔ ∃ error ∈ state.cursor.errors,
      error.fault.message = "expression is nested too deeply" := by
  simp only [← isCut_iff]
  rw [← List.countP_pos_iff, accounts.countP]
  cases state.cursor.tooDeep <;> simp

/-- The depth that the machine counts goes by the calls that are being run, and is within the limit.
A call comes back at the depth at which it was made, and so does each round of a loop. -/
structure Balanced (machine : Machine) : Prop where
  depth : machine.state.depth = machine.nesting
  limited : machine.state.depth ≤ Grammar.depthLimit
  /-- A call that nests has something to give back. -/
  leave : ∀ answer activation stack, machine.control = .done answer →
    machine.stack = activation :: stack → activation.nests = true → 0 < machine.state.depth
  call : ∀ routine next, machine.control = .call routine next →
    ∃ answer after, routine.Ends machine.state answer after ∧
      Steps machine ⟨next answer, machine.stack, after⟩ ∧ after.depth = machine.state.depth
  again : ∀ round next, machine.control = .again round next →
    ∃ more after, round.Ends machine.state more after ∧
      Steps machine ⟨if more then .again round next else next, machine.stack, after⟩ ∧
      after.depth = machine.state.depth
  /-- Between items nothing is nested. -/
  items : ∀ next, machine.control = .again .item next → machine.state.depth = 0
  item : ∀ next, machine.control = .call .item next → machine.state.depth = 0
  /-- The loop of an operand leaves looser operators to the loop around it. -/
  operand : ∀ power mark next operator left right,
    machine.control = .again (.operation power mark) next →
    machine.state.cursor.kind? = some operator →
    Grammar.powers? operator = some (left, right) → left < power →
    (Round.operation power mark).Ends machine.state false machine.state

theorem balanced_of_reached (reached : Steps (start text) machine) : machine.Balanced := by
  obtain ⟨control, stack, state⟩ := machine
  have counted := reached.counted (start_counted text)
  have outermost (ready : State.Ready Grammar.depthLimit state) : state.depth = 0 := by
    have room := ready.room
    omega
  refine
    { depth := counted.depth, limited := counted.limited
      leave := ?_, call := ?_, again := ?_, operand := ?_
      items := fun next looping => outermost (reached.phase.ready_of_again looping)
      item := fun next calling => outermost (reached.phase.ready_of_call calling) }
  · intro answer activation outer _ running nests
    rw [counted.depth, nesting, running, List.countP_cons_of_pos nests]
    exact Nat.succ_pos _
  · intro routine next calling
    obtain rfl : control = _ := calling
    obtain ⟨answer, after, ends, -, same, -⟩ := call_progresses reached rfl
    exact ⟨answer, after, ends, ends next stack, same⟩
  · intro round next looping
    obtain rfl : control = _ := looping
    obtain ⟨more, after, ends, same, -⟩ := round_progresses reached rfl
    exact ⟨more, after, ends, ends.again next stack, same⟩
  · intro power mark next operator left right _ seen powers looser
    have realized := realized_ofDepth (Grammar.depthLimit - state.depth)
    refine Round.ends_grown rfl (grows_joining realized power) ?_
    simp [Grammar.joining, Grammar.operatorAt?, seen, powers, looser]

/-- The error node of a parse that is cut off. -/
theorem Cut.exists_node {cut : Cut (Lexer.tokenize text)}
    (placed : cut.spot ∈ (ended text).state.builder.spots) :
    ∃ node ∈ (ofText text).root.ofKind .error, node.children = Tree.leaves cut.inside ∧
      node.start = Token.widthOf cut.before := by
  have walked : (ended text).state.builder.spots =
      (ofText text).root.walk.map fun place => (place.tree, place.start) :=
    (Tree.map_preorder_eq_spots [] 0 _).symm
  rw [walked] at placed
  obtain ⟨place, visited, same⟩ := List.mem_map.mp placed
  obtain ⟨tree, start⟩ := Prod.mk.inj same
  cases place with
  | leaf leaf => simp [Place.tree] at tree
  | node node =>
      simp only [Place.tree, Node.tree, Tree.node.injEq] at tree
      refine ⟨node, List.mem_filter.mpr ⟨?_, by simp [tree.1]⟩, tree.2, start⟩
      exact List.mem_filterMap.mpr ⟨.node node, visited, rfl⟩

/-- What a parse that is cut off leaves behind. -/
theorem exists_cut (deep : (ofText text).tooDeep = true) :
    ∃ cut : Cut (Lexer.tokenize text),
      (∃ node ∈ (ofText text).root.ofKind .error, node.children = Tree.leaves cut.inside ∧
        node.start = Token.widthOf cut.before ∧ node.stop = cut.error.stop) ∧
      ∃ earlier later, (ofText text).errors = earlier ++ cut.error :: later ∧
        ∀ error ∈ later, error.start = error.stop ∧ cut.error.stop ≤ error.start := by
  cases (start_steps text).accounts.2 with
  | shallow shallow => exact absurd (shallow.symm.trans deep) Bool.false_ne_true
  | cut _ _ cut placed _ among =>
      obtain ⟨node, error, children, start⟩ := cut.exists_node placed
      refine ⟨cut, ⟨node, error, children, start, ?_⟩, ?_⟩
      · rw [Node.stop, start, children, Tree.widthOf_leaves, cut.stop, Token.widthOf_append]
      · obtain ⟨later, earlier, split, empty, -⟩ := among
        refine ⟨earlier.reverse, later.reverse, ?_, ?_⟩
        · rw [← (ended_holds text).errors, split]
          simp
        · intro error membership
          exact (empty error (List.mem_reverse.mp membership)).2

/-- A document with few words is not nested too deeply. -/
theorem ofText_of_few_words
    (few : (Lexer.tokenize text).countP (! ·.isTrivia) < Grammar.depthLimit / 2) :
    (ofText text).tooDeep = false := by
  cases deep : (ofText text).tooDeep with
  | false => rfl
  | true =>
      obtain ⟨cut, -⟩ := exists_cut deep
      have late := cut.late
      have counted := congrArg (List.countP (! ·.isTrivia)) cut.whole
      simp only [List.countP_append] at counted
      omega

/-- Wherever the parse of a document gets, the depth is the number of calls that nest, within the
limit, and the same whenever the same calls are being run. The parse is cut off exactly if it says
so; it does so once, in an error node that takes all words that are left, after at least 128 words,
and what it reports later is missing pieces beyond that node. A text with fewer words opens as a
document if its offsets fit into 32 bits. -/
theorem depth_is_accounted_for (text : Text) :
    (∀ machine, Steps (start text) machine →
      machine.Balanced ∧
      (∀ later, Steps machine later → later.stack = machine.stack →
        later.state.depth = machine.state.depth) ∧
      (machine.state.cursor.tooDeep = true ↔ ∃ error ∈ machine.state.cursor.errors,
        error.fault.message = "expression is nested too deeply")) ∧
      ((ofText text).tooDeep = true ↔ ∃ error ∈ (ofText text).errors,
        error.fault.message = "expression is nested too deeply") ∧
      ((ofText text).tooDeep = true →
        (ofText text).errors.countP
            (·.fault.message == "expression is nested too deeply") = 1 ∧
          ∃ cut : Cut (Lexer.tokenize text), 128 ≤ cut.before.countP (! ·.isTrivia) ∧
            (∃ node ∈ (ofText text).root.ofKind .error,
              node.children = Tree.leaves cut.inside ∧
              node.start = Token.widthOf cut.before ∧ node.stop = cut.error.stop) ∧
            ∃ earlier later, (ofText text).errors = earlier ++ cut.error :: later ∧
              ∀ error ∈ later, error.start = error.stop ∧ cut.error.stop ≤ error.start) ∧
      ((Lexer.tokenize text).countP (! ·.isTrivia) < 128 →
        (ofText text).tooDeep = false ∧
          (text.bytes < UInt32.size → ∃ document, Document.ofText text = .ok document)) := by
  have accounts := (start_steps text).accounts.2
  have errors := (ended_holds text).errors
  refine ⟨fun machine reached => ⟨balanced_of_reached reached, ?_, ?_⟩, ?_, ?_, ?_⟩
  · intro later further same
    rw [(balanced_of_reached (reached.trans further)).depth, (balanced_of_reached reached).depth,
      nesting, nesting, same]
  · exact reached.accounts.2.tooDeep_iff
  · simp only [← errors, List.mem_reverse]
    exact accounts.tooDeep_iff
  · intro deep
    obtain ⟨cut, node, listed⟩ := exists_cut deep
    refine ⟨?_, cut, cut.late, node, listed⟩
    have once := accounts.countP
    rw [show (ended text).state.cursor.tooDeep = true from deep, if_pos rfl] at once
    rw [← errors, List.countP_reverse, ← once]
    refine List.countP_congr fun error _ => ?_
    rw [isCut_iff, beq_iff_eq]
  · intro few
    have shallow := ofText_of_few_words few
    exact ⟨shallow, fun small => ⟨_, Document.ofText_of_shallow small shallow⟩⟩

/-- One opening parenthesis fewer is not too deep. -/
theorem depth_is_accounted_for_parentheses :
    (ofText (List.replicate 127 '(')).tooDeep = false ∧
      (ofText (List.replicate 128 '(')).tooDeep = true ∧
      ∃ cut : Cut (Lexer.tokenize (List.replicate 128 '(')),
        128 ≤ cut.before.countP (! ·.isTrivia) ∧
          ∃ node ∈ (ofText (List.replicate 128 '(')).root.ofKind .error,
            node.start = Token.widthOf cut.before ∧ node.stop = cut.error.stop := by
  have deep : (ofText (List.replicate 128 '(')).tooDeep = true := by decide +kernel
  obtain ⟨-, cut, late, ⟨node, error, -, start, stop⟩, -⟩ :=
    (depth_is_accounted_for (List.replicate 128 '(')).2.2.1 deep
  exact ⟨by decide +kernel, deep, cut, late, node, error, start, stop⟩

end Machine

end Scrapscript
