import Scrapscript.Proofs.Grammar.Atom

/-!
Field accesses, applications and operations keep to the table, and operators nest as tightly as they
bind. With that every level of the grammar does, from the cut-off at the nesting limit upwards.
-/

namespace Scrapscript.Grammar

open Scrapscript.Phrase Scrapscript.Rule
open Scrapscript.Tree (withoutTrivia isError isTokenOf hasErrorIn)

variable {below : Level} {cursor : Cursor}

theorem access_builds (sound : below.Sound) :
    (access below).Builds (Leveled NodeKind.isAccess) := by
  have name (cursor : Cursor) := (fieldName_yields cursor).only
  apply builds_grown (atom_builds sound) rfl (by decide) (fun _ => rfl)
    (fun cursor seen => yields_tokenThen seen (by decide) (name _))
    (fun cursor seen => length_takeThen_lt seen (name _))
  · intro row filled
    exact filled
  · rfl
  · intro kind atomic
    simp [NodeKind.isAccess, atomic]

/-- An argument begins with a token that can begin one. -/
theorem argument_yields (sound : below.Sound) (seen : cursor.seesArgument = true) :
    (allow (access below)).Yields cursor fun row _ =>
      ∃ argument, row = [argument] ∧ argument.isNodeOf NodeKind.isAccess = true ∧
        ∃ token, argument.tokens.head? = some token ∧ token.kind.startsArgument = true := by
  have expression : cursor.seesExpression = true := by simp [Cursor.seesExpression, seen]
  apply ((access_builds sound).allowed expression).mono
  intro row rest yielded
  obtain ⟨argument, rfl, leveled, head⟩ := yielded
  simp only [Cursor.seesArgument, Cursor.kind?, Option.any_eq_true, Option.map_eq_some_iff] at seen
  obtain ⟨_, ⟨word, first, rfl⟩, starts⟩ := seen
  exact ⟨argument, rfl, leveled, word.token, by simp [head, first], starts⟩

theorem application_builds (sound : below.Sound) :
    (application below).Builds (Leveled NodeKind.isApplied) := by
  have grows : Grows
      (fun cursor =>
        if cursor.seesArgument && !seesDeclaration cursor then
          some ⟨.application, allow (access below)⟩
        else none)
      (Leveled NodeKind.isApplied)
      (fun _ _ row _ => ∃ argument, row = [argument] ∧
        argument.isNodeOf NodeKind.isAccess = true ∧
        ∃ token, argument.tokens.head? = some token ∧ token.kind.startsArgument = true) := by
    constructor <;>
      simp only [Option.ite_none_right_eq_some, Option.some.injEq, Bool.and_eq_true]
    case proper =>
      intro cursor larger growing
      obtain ⟨-, rfl⟩ := growing
      simp
    case yields =>
      intro cursor larger growing
      obtain ⟨⟨seen, -⟩, rfl⟩ := growing
      exact argument_yields sound seen
    case progress =>
      intro cursor larger growing
      obtain ⟨⟨seen, -⟩, rfl⟩ := growing
      apply (access_builds sound).length_allowed_lt (by simp [Cursor.seesExpression, seen])
      intro exhausted
      simp [Cursor.seesArgument, Cursor.kind?, exhausted] at seen
    case formed =>
      intro node cursor larger row rest leveled growing yielded
      obtain ⟨-, rfl⟩ := growing
      obtain ⟨argument, rfl, accessed, token, head, starts⟩ := yielded
      have leveled : node.isNodeOf NodeKind.isApplied = true := leveled
      refine ⟨by simp [allows, fills, nodeOf, leveled, accessed], fun _ => ?_, fun _ => ?_⟩
      · simp only [groups, head, Option.any_some]
        cases kind : token.kind <;> simp [kind, TokenKind.startsArgument] at starts ⊢
      · simpa using Tree.isError_eq_false rfl leveled
    case kept =>
      intro node cursor larger children rest leveled growing yielded
      obtain ⟨-, rfl⟩ := growing
      rfl
  have leveled : (access below).Builds (Leveled NodeKind.isApplied) :=
    (access_builds sound).mono fun node rest isNode =>
      Tree.isNodeOf_mono (fun kind accessed => by simp [NodeKind.isApplied, accessed]) isNode
  exact ((leveled.grown grows).mono fun node rest grown => grown.1).settled

theorem operatorAt?_eq_some_iff {power right : Nat} {operator : TokenKind} :
    operatorAt? power cursor = some (operator, right) ↔
      cursor.kind? = some operator ∧
        ∃ left, powers? operator = some (left, right) ∧ power ≤ left := by
  cases next : cursor.kind? with
  | none => simp [operatorAt?, next]
  | some seen =>
      cases powers : powers? seen with
      | none =>
          simp only [operatorAt?, next, powers, reduceCtorEq, Option.some.injEq, false_iff]
          intro found
          obtain ⟨rfl, left, otherPowers, -⟩ := found
          rw [powers] at otherPowers
          contradiction
      | some pair =>
          obtain ⟨left, right'⟩ := pair
          by_cases looser : left < power
          · simp only [operatorAt?, next, powers, looser, if_true, reduceCtorEq,
              Option.some.injEq, false_iff]
            intro found
            obtain ⟨rfl, left', otherPowers, tight⟩ := found
            rw [powers, Option.some.injEq, Prod.mk.injEq] at otherPowers
            omega
          · simp only [operatorAt?, next, powers, looser, if_false, Option.some.injEq,
              Prod.mk.injEq]
            constructor
            · intro found
              obtain ⟨rfl, rfl⟩ := found
              exact ⟨rfl, left, powers, Nat.not_lt.mp looser⟩
            · intro found
              obtain ⟨rfl, left', otherPowers, tight⟩ := found
              rw [powers, Option.some.injEq, Prod.mk.injEq] at otherPowers
              exact ⟨rfl, otherPowers.2⟩

theorem isBinaryOperator_of_powers? {operator : TokenKind} {powers : Nat × Nat}
    (binds : powers? operator = some powers) : operator.isBinaryOperator = true := by
  cases operator <;> first | rfl | simp [powers?] at binds

theorem operator_yields {operator : TokenKind} (seen : cursor.sees operator = true)
    (isOperator : operator.isBinaryOperator = true) :
    (enclose .operator take).Yields cursor fun row _ =>
      ∃ node, row = [node] ∧ node.operator? = some operator := by
  have proper : operator ≠ .error ∧ operator.isTrivia = false := by
    refine ⟨?_, ?_⟩
    · intro error
      simp [error, TokenKind.isBinaryOperator] at isOperator
    · cases operator <;> first | rfl | simp [TokenKind.isBinaryOperator] at isOperator
  have settledSeen : cursor.settled.sees operator = true := seen
  apply ((yields_take settledSeen proper.1).enclosed (length_take_lt settledSeen)
    (by decide) ?_).mono
  · intro row rest yielded
    obtain ⟨children, rfl, ⟨leaf, only, isToken⟩, -⟩ := yielded
    refine ⟨_, rfl, ?_⟩
    cases leaf with
    | node kind children => simp [Tree.isToken, isTokenOf] at isToken
    | leaf token =>
        have same : token.kind = operator := eq_of_beq isToken
        simp [Tree.operator?, ← Tree.significantTokens_withoutTrivia children, only,
          Tree.significantTokens, Token.isTrivia, same, proper.2]
  · intro row rest yielded
    obtain ⟨⟨leaf, rfl, isToken⟩, -⟩ := yielded
    apply Formed.of_allowed (by decide)
    simp [allows, fills, Tree.isTokenOf_of_isToken isOperator isToken]

/-- What holds of the operations of a loop between two rounds. The operator of the node so far
binds tightly enough for the loop, and the operand after it has left no operator to be joined
to that operand. -/
structure Joined (power : Nat) (node : Tree) (cursor : Cursor) : Prop where
  leveled : node.isNodeOf NodeKind.isBinary = true
  tight : ∀ inner, node.outerPowers? = some inner → power ≤ inner.1
  apart : node.hasError = false → ∀ inner, node.outerPowers? = some inner →
    operatorAt? inner.2 cursor = none

/-- The operator and the operand that a round of the loop adds. -/
def Adds (power : Nat) (cursor : Cursor) (row : List Tree) (rest : Cursor) : Prop :=
  ∃ operator left right symbol operand, row = [symbol, operand] ∧
    cursor.kind? = some operator ∧ powers? operator = some (left, right) ∧ power ≤ left ∧
    symbol.operator? = some operator ∧ (isError operand = true ∨ Operand right operand rest)

theorem operationKind_proper (operator : TokenKind) : operationKind operator ≠ .error := by
  unfold operationKind
  split <;> simp

theorem operationKind_isBinary (operator : TokenKind) :
    (operationKind operator).isBinary = true := by
  unfold operationKind
  split <;> rfl

theorem operator?_of_isBinary {node : Tree} (isNode : node.isNodeOf NodeKind.isBinary = true) :
    node.operator? = none := by
  cases node with
  | leaf token => rfl
  | node kind children =>
      cases kind <;> first | rfl | exact absurd isNode Bool.false_ne_true

theorem outerPowers?_operation {operator : TokenKind} {node : Tree} {children : List Tree}
    {symbol operand : Tree} (isNode : node.isNodeOf NodeKind.isBinary = true)
    (row : withoutTrivia children = [symbol, operand]) (named : symbol.operator? = some operator) :
    (Tree.node (operationKind operator) (node :: children)).outerPowers? = powers? operator := by
  have notOperator := operator?_of_isBinary isNode
  have kinds : (operationKind operator).isOperation = true := by
    unfold operationKind
    split <;> rfl
  have found : children.findSome? Tree.operator? = some operator := by
    rw [← Tree.findSome?_operator?_withoutTrivia, row]
    simp [named]
  simp [Tree.outerPowers?, kinds, notOperator, found]

theorem outerPowers?_applied {node : Tree} (isNode : node.isNodeOf NodeKind.isApplied = true) :
    node.outerPowers? = none := by
  cases node with
  | leaf token => rfl
  | node kind children =>
      cases kind <;> first | rfl | exact absurd isNode Bool.false_ne_true

theorem looser_of_operatorAt?_eq_none {power left right : Nat} {operator : TokenKind}
    (ended : operatorAt? power cursor = none) (next : cursor.kind? = some operator)
    (powers : powers? operator = some (left, right)) : left < power := by
  rcases Nat.lt_or_ge left power with looser | tight
  · exact looser
  · have found := operatorAt?_eq_some_iff.mpr ⟨next, left, powers, tight⟩
    rw [ended] at found
    contradiction

theorem Joined.formed {power : Nat} {operator : TokenKind} {node : Tree} {row : List Tree}
    {rest : Cursor} (joined : Joined power node cursor) (next : cursor.kind? = some operator)
    (adds : Adds power cursor row rest) : Formed (operationKind operator) (node :: row) := by
  obtain ⟨_, left, right, symbol, operand, rfl, sameNext, powers, -, named, operandGood⟩ := adds
  obtain rfl : operator = _ := Option.some.inj (next.symm.trans sameNext)
  have leveled := joined.leveled
  have operandLeveled : nodeOf isError NodeKind.isBinary operand = true := by
    rcases operandGood with error | good
    · simp [nodeOf, error]
    · simp [nodeOf, good.leveled]
  refine ⟨?_, ?_, fun _ => by simpa using Tree.isError_eq_false rfl leveled⟩
  · by_cases isPipeline : operator = .pipeline <;>
      simp [operationKind, isPipeline, allows, fills, nodeOf, leveled, named,
        show (operand.isNodeOf NodeKind.isBinary || isError operand) = true from operandLeveled]
  · intro clean
    simp only [hasErrorIn, Bool.or_eq_false_iff] at clean
    have nodeClean := clean.1
    have operandClean := clean.2.2.1
    have operandIs : Operand right operand rest := by
      rcases operandGood with error | good
      · simp [Tree.hasError_of_isError error] at operandClean
      · exact good
    have nested : nests node symbol operand = true := by
      simp only [nests, named, Option.bind_some, powers, Option.any_some, Bool.and_eq_true,
        Option.all_eq_true, decide_eq_true_eq]
      constructor
      · intro inner outer
        exact looser_of_operatorAt?_eq_none (joined.apart nodeClean inner outer) next powers
      · exact operandIs.tight
    by_cases isPipeline : operator = .pipeline <;>
      simpa [operationKind, isPipeline, groups] using nested

theorem Joined.kept {power : Nat} {operator : TokenKind} {node : Tree} {children : List Tree}
    {rest : Cursor} (joined : Joined power node cursor) (next : cursor.kind? = some operator)
    (adds : Adds power cursor (withoutTrivia children) rest) :
    Joined power (.node (operationKind operator) (node :: children)) rest := by
  obtain ⟨_, left, right, symbol, operand, row, sameNext, powers, tight, named, operandGood⟩ := adds
  obtain rfl : operator = _ := Option.some.inj (next.symm.trans sameNext)
  have outer := (outerPowers?_operation joined.leveled row named).trans powers
  refine ⟨operationKind_isBinary operator, ?_, ?_⟩
  · intro inner same
    rw [outer, Option.some.injEq] at same
    rw [← same]
    exact tight
  · intro clean inner same
    rw [outer, Option.some.injEq] at same
    rw [← same]
    rcases operandGood with error | good
    · simp only [Tree.hasError, hasErrorIn, Bool.or_eq_false_iff] at clean
      rw [← Tree.hasErrorIn_withoutTrivia, row] at clean
      simp [hasErrorIn, Tree.hasError_of_isError error] at clean
    · exact good.ended

theorem joining_eq_some {power : Nat} {larger : Growth}
    (grown : joining below power cursor = some larger) :
    ∃ operator left right, cursor.kind? = some operator ∧
      powers? operator = some (left, right) ∧ power ≤ left ∧
      larger = ⟨operationKind operator,
        sequence [enclose .operator take, require (below.binary right) .missingOperand]⟩ := by
  unfold joining at grown
  split at grown
  · contradiction
  · rename_i operator right found
    obtain ⟨next, left, powers, tight⟩ := operatorAt?_eq_some_iff.mp found
    exact ⟨operator, left, right, next, powers, tight, (Option.some.inj grown).symm⟩

theorem joining_yields (sound : below.Sound) {power left right : Nat} {operator : TokenKind}
    (next : cursor.kind? = some operator) (powers : powers? operator = some (left, right))
    (tight : power ≤ left) :
    (sequence [enclose .operator take, require (below.binary right) .missingOperand]).Yields cursor
      (Adds power cursor) := by
  have isOperator := isBinaryOperator_of_powers? powers
  have symbol := operator_yields (Cursor.sees_of_kind? next) isOperator
  apply (symbol.followedBy ((sound.binary right).required .missingOperand _).only).mono
  intro row rest yielded
  obtain ⟨before, _, after, rfl, ⟨symbol, rfl, named⟩, operand, rfl, operandGood⟩ := yielded
  exact ⟨operator, left, right, symbol, operand, rfl, next, powers, tight, named, operandGood⟩

theorem length_joining_lt (sound : below.Sound) {operator : TokenKind} (right : Nat)
    (next : cursor.kind? = some operator) :
    (sequence [enclose .operator take, require (below.binary right) .missingOperand]
      cursor).rest.words.length < cursor.words.length := by
  have seen : cursor.settled.sees operator = true := Cursor.sees_of_kind? next
  have operand := (sound.binary right).required .missingOperand cursor.advanced
  have ending : (sequence [enclose .operator take,
      require (below.binary right) .missingOperand] cursor).rest =
        (require (below.binary right) .missingOperand cursor.advanced).rest := by
    simp [Phrase.sequence, enclose, take_rest seen]
  rw [ending]
  exact Nat.lt_of_le_of_lt operand.placed.length_words_le
    (Cursor.length_advanced_lt (Cursor.words_ne_nil_of_sees seen))

theorem joining_grows (sound : below.Sound) (power : Nat) :
    Grows (joining below power) (Joined power) fun cursor _ => Adds power cursor := by
  constructor
  case proper =>
    intro cursor larger grown
    obtain ⟨operator, left, right, -, -, -, rfl⟩ := joining_eq_some grown
    exact operationKind_proper operator
  case yields =>
    intro cursor larger grown
    obtain ⟨operator, left, right, next, powers, tight, rfl⟩ := joining_eq_some grown
    exact joining_yields sound next powers tight
  case progress =>
    intro cursor larger grown
    obtain ⟨operator, left, right, next, -, -, rfl⟩ := joining_eq_some grown
    exact length_joining_lt sound right next
  case formed =>
    intro node cursor larger row rest joined grown adds
    obtain ⟨operator, left, right, next, -, -, rfl⟩ := joining_eq_some grown
    exact joined.formed next adds
  case kept =>
    intro node cursor larger children rest joined grown adds
    obtain ⟨operator, left, right, next, -, -, rfl⟩ := joining_eq_some grown
    exact joined.kept next adds

theorem binary_builds (sound : below.Sound) (power : Nat) :
    (binary below power).Builds (Operand power) := by
  have first : (application below).Builds (Joined power) := by
    refine (application_builds sound).mono fun node rest isNode => ?_
    have none := outerPowers?_applied isNode
    refine ⟨?_, by simp [none], by simp [none]⟩
    exact Tree.isNodeOf_mono (fun kind applied => by simp [NodeKind.isBinary, applied]) isNode
  refine ((first.grown (joining_grows sound power)).mono fun node rest grown => ?_).settled
  refine ⟨grown.1.leveled, grown.1.tight, ?_⟩
  cases found : operatorAt? power rest with
  | none => rfl
  | some operator => simp [joining, found] at grown

/-- Every level is as the grammar says, whatever is left below it. -/
theorem sound_ofDepth (depth : Nat) : (Level.ofDepth depth).Sound := by
  induction depth with
  | zero => exact ⟨cutOff_builds _, fun _ => cutOff_builds _⟩
  | succ depth inductionHypothesis =>
      exact ⟨function_builds inductionHypothesis, binary_builds inductionHypothesis⟩

end Scrapscript.Grammar
