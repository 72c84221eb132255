import Scrapscript.Proofs.Grammar
import Scrapscript.Proofs.Grammar.Complete
import Scrapscript.Proofs.Tree.Place

/-!
Precedence: a node without errors has the children of its level and no gaps, and its operators nest
as tightly as they bind.
-/

namespace Scrapscript

open Scrapscript.Tree (withoutTrivia hasErrorIn)

/-- A node that the grammar allows without gaps and groups as it should, unless it has errors. -/
def Grouped (kind : NodeKind) (children : List Tree) : Prop :=
  (Tree.node kind children).hasError = false →
    Grammar.allows Grammar.noGap kind (withoutTrivia children) = true ∧
      Grammar.groups kind (withoutTrivia children) = true

instance (kind : NodeKind) (children : List Tree) : Decidable (Grouped kind children) :=
  inferInstanceAs (Decidable (_ → _))

theorem Formed.complete {kind : NodeKind} {children : List Tree}
    (clean : hasErrorIn children = false) (formed : Formed kind (withoutTrivia children)) :
    Grammar.allows Grammar.noGap kind (withoutTrivia children) = true ∧
      Grammar.groups kind (withoutTrivia children) = true := by
  rw [← Tree.hasErrorIn_withoutTrivia] at clean
  refine ⟨?_, formed.grouped clean⟩
  rw [← Grammar.allows_congr clean]
  exact formed.allowed

/-- A cut inside a node would have left an error node in it. -/
theorem Placed.grouped {cursor rest : Cursor} {kind : NodeKind} {children : List Tree}
    (shallow : cursor.tooDeep = false) (inside : Placed cursor children rest)
    (formed : rest.tooDeep = false → Formed kind (withoutTrivia children)) :
    Grouped kind children := by
  intro clean
  simp only [Tree.hasError, Bool.or_eq_false_iff] at clean
  cases deep : rest.tooDeep with
  | false => exact (formed deep).complete clean.2
  | true =>
      have wrong := (inside.hasError_of_tooDeep shallow deep).1
      rw [clean.2] at wrong
      contradiction

namespace Grammar

/-- The power operator alone binds tighter to its left than to its right, and tighter than all
others. -/
theorem powers?_cases {operator : TokenKind} {powers : Nat × Nat}
    (binds : powers? operator = some powers) :
    operator = .caret ∧ powers.1 = 18 ∧ powers.2 = 17 ∨
      operator ≠ .caret ∧ powers.2 = powers.1 + 1 ∧ powers.1 < 17 ∧ powers.1 % 2 = 1 := by
  cases operator <;> simp only [powers?, Option.some.injEq, reduceCtorEq] at binds <;>
    subst binds <;> simp

/-- The operators of the operands are not looser than the operator between them. One that is as
loose is on the left, or on the right if it is that of powers. -/
def TightOperands (row : List Tree) : Prop :=
  ∃ left symbol right operator outer, row = [left, symbol, right] ∧
    symbol.operator? = some operator ∧ powers? operator = some outer ∧
    (left.isNodeOf NodeKind.isOperation = true →
      ∃ inner, left.outerPowers? = some inner ∧ outer.1 < inner.2 ∧
        outer.1 ≤ inner.1 ∧ (outer.1 = inner.1 → operator ≠ .caret)) ∧
    (right.isNodeOf NodeKind.isOperation = true →
      ∃ inner, right.outerPowers? = some inner ∧ outer.2 ≤ inner.1 ∧
        outer.1 ≤ inner.1 ∧ (outer.1 = inner.1 → operator = .caret))

section

variable {operator other : TokenKind} {outer inner : Nat × Nat}

/-- An operator in a left operand is not looser, and as loose only where the level groups to the
left. -/
theorem left_operand_le (binds : powers? operator = some outer)
    (otherBinds : powers? other = some inner) (nested : outer.1 < inner.2) :
    outer.1 ≤ inner.1 ∧ (outer.1 = inner.1 → operator ≠ .caret) := by
  have outerCases := powers?_cases binds
  have innerCases := powers?_cases otherBinds
  refine ⟨by omega, ?_⟩
  intro same caret
  have notOther := outerCases.resolve_right fun other => other.1 caret
  omega

/-- An operator in a right operand is not looser, and as loose only where the level groups to the
right. -/
theorem right_operand_le (binds : powers? operator = some outer)
    (otherBinds : powers? other = some inner) (nested : outer.2 ≤ inner.1) :
    outer.1 ≤ inner.1 ∧ (outer.1 = inner.1 → operator = .caret) := by
  have outerCases := powers?_cases binds
  have innerCases := powers?_cases otherBinds
  refine ⟨by omega, ?_⟩
  intro same
  rcases outerCases with ⟨caret, -⟩ | ⟨-, powers⟩
  · exact caret
  · omega

end

theorem exists_of_fills_cons {place : Tree → Bool} {places : List (Tree → Bool)} {row : List Tree}
    (filled : fills (place :: places) row = true) :
    ∃ tree rest, row = tree :: rest ∧ place tree = true ∧ fills places rest = true := by
  cases row with
  | nil => simp [fills] at filled
  | cons tree rest =>
      rw [fills, Bool.and_eq_true] at filled
      exact ⟨tree, rest, rfl, filled⟩

/-- An operation begins with its left operand and has two more children. -/
theorem operands_of_allows {kind : NodeKind} {row : List Tree}
    (isOperation : kind.isOperation = true) (allowed : allows noGap kind row = true) :
    ∃ left symbol right, row = [left, symbol, right] ∧ left.isNodeOf NodeKind.isBinary = true := by
  have filled : ∃ symbols operands,
      fills [nodeOf noGap NodeKind.isBinary, symbols, operands] row = true := by
    cases kind <;> first | exact ⟨_, _, allowed⟩ | exact absurd isOperation Bool.false_ne_true
  obtain ⟨symbols, operands, filled⟩ := filled
  obtain ⟨left, _, rfl, leveled, filled⟩ := exists_of_fills_cons filled
  obtain ⟨symbol, _, rfl, -, filled⟩ := exists_of_fills_cons filled
  obtain ⟨right, rest, rfl, -, filled⟩ := exists_of_fills_cons filled
  cases rest with
  | nil => exact ⟨left, symbol, right, rfl, by simpa [nodeOf] using leveled⟩
  | cons tree more => simp [fills] at filled

/-- The parts of an operation that the grammar allows and groups as it should. -/
theorem operation_parts {kind : NodeKind} {children : List Tree}
    (isOperation : kind.isOperation = true)
    (allowed : allows noGap kind (withoutTrivia children) = true)
    (grouped : groups kind (withoutTrivia children) = true) :
    ∃ left symbol right operator powers, withoutTrivia children = [left, symbol, right] ∧
      symbol.operator? = some operator ∧ powers? operator = some powers ∧
      (Tree.node kind children).outerPowers? = some powers ∧
      (∀ inner, left.outerPowers? = some inner → powers.1 < inner.2) ∧
      (∀ inner, right.outerPowers? = some inner → powers.2 ≤ inner.1) := by
  obtain ⟨left, symbol, right, row, leveled⟩ := operands_of_allows isOperation allowed
  have nested : nests left symbol right = true := by
    rw [row] at grouped
    cases kind <;> first | exact grouped | exact absurd isOperation Bool.false_ne_true
  rw [nests, Option.any_eq_true] at nested
  obtain ⟨powers, bound, operands⟩ := nested
  obtain ⟨operator, named, binds⟩ := Option.bind_eq_some_iff.mp bound
  have outermost : (Tree.node kind children).outerPowers? = some powers := by
    rw [Tree.outerPowers?, if_pos isOperation, ← Tree.findSome?_operator?_withoutTrivia, row]
    simp [operator?_of_isBinary leveled, named, binds]
  simp only [Bool.and_eq_true, Option.all_eq_true, decide_eq_true_eq] at operands
  exact ⟨left, symbol, right, operator, powers, row, named, binds, outermost, operands⟩

end Grammar

/-- An operand that is an operation without errors itself shows its operator. -/
theorem outerPowers?_of_operand {children : List Tree} {tree : Tree}
    (everywhere : Tree.EverywhereIn Grouped children) (clean : hasErrorIn children = false)
    (child : tree ∈ withoutTrivia children)
    (operation : tree.isNodeOf NodeKind.isOperation = true) :
    ∃ operator powers,
      Grammar.powers? operator = some powers ∧ tree.outerPowers? = some powers := by
  cases tree with
  | leaf token => exact absurd operation Bool.false_ne_true
  | node kind grandchildren =>
      have membership := (List.mem_filter.mp child).1
      have cleanChild := (Tree.hasErrorIn_eq_false_iff children).mp clean _ membership
      obtain ⟨allowed, grouped⟩ := (Tree.everywhere_of_mem everywhere membership).1 cleanChild
      obtain ⟨_, _, _, operator, powers, -, -, binds, outermost, -⟩ :=
        Grammar.operation_parts operation allowed grouped
      exact ⟨operator, powers, binds, outermost⟩

namespace Parse

theorem grouped_root (text : Text) : (ofText text).root.tree.Everywhere Grouped := by
  obtain ⟨rest, placed, -, -, -, allowed⟩ := ofTokens_placed (Lexer.tokenize text)
  have shallow : (Cursor.ofTokens (Lexer.tokenize text)).tooDeep = false := rfl
  constructor
  · exact placed.grouped shallow fun finished => ⟨allowed finished, fun _ => rfl, nofun⟩
  · apply placed.everywhere
    · intro deep
      contradiction
    · intro tokens clean
      simp [Tree.hasError] at clean
    · intro cursor rest kind children shallow proper inside formed
      exact inside.grouped shallow formed

theorem tightOperands {children : List Tree} {kind : NodeKind}
    (everywhere : (Tree.node kind children).Everywhere Grouped)
    (clean : (Tree.node kind children).hasError = false) (isOperation : kind.isOperation = true) :
    Grammar.TightOperands (withoutTrivia children) := by
  obtain ⟨allowed, grouped⟩ := everywhere.1 clean
  obtain ⟨left, symbol, right, operator, outer, row, named, binds, -, lefts, rights⟩ :=
    Grammar.operation_parts isOperation allowed grouped
  have cleanChildren : hasErrorIn children = false := ((Bool.or_eq_false_iff ..).mp clean).2
  have operand {tree : Tree} (child : tree ∈ [left, symbol, right]) :=
    outerPowers?_of_operand everywhere.2 cleanChildren (row ▸ child)
  refine ⟨left, symbol, right, operator, outer, row, named, binds, ?_, ?_⟩
  · intro operation
    obtain ⟨other, inner, otherBinds, outermost⟩ := operand (by simp) operation
    have nested := lefts inner outermost
    exact ⟨inner, outermost, nested, Grammar.left_operand_le binds otherBinds nested⟩
  · intro operation
    obtain ⟨other, inner, otherBinds, outermost⟩ := operand (by simp) operation
    have nested := rights inner outermost
    exact ⟨inner, outermost, nested, Grammar.right_operand_le binds otherBinds nested⟩

/-- A node without errors has the children that the grammar asks for at its level, grouped as
tightly as their operators bind. -/
theorem grouped_of_clean (text : Text) :
    ∀ node ∈ (ofText text).root.descendants, node.hasError = false →
      Grammar.allows Grammar.noGap node.kind (withoutTrivia node.children) = true ∧
        Grammar.groups node.kind (withoutTrivia node.children) = true ∧
        (node.kind.isOperation = true → Grammar.TightOperands (withoutTrivia node.children)) := by
  intro node visited clean
  have everywhere := Node.everywhere_of_descendant (grouped_root text) visited
  obtain ⟨allowed, grouped⟩ := everywhere.1 clean
  exact ⟨allowed, grouped, tightOperands everywhere clean⟩

/-- A difference whose right operand is a tower of powers. -/
theorem grouped_of_clean_powers :
    ∃ node ∈ (ofText ['1', '-', '2', '^', '3', '^', '4']).root.descendants,
      node.hasError = false ∧ node.kind.isOperation = true ∧
        Grammar.allows Grammar.noGap node.kind (withoutTrivia node.children) = true ∧
        Grammar.groups node.kind (withoutTrivia node.children) = true ∧
        Grammar.TightOperands (withoutTrivia node.children) := by
  have found : (ofText ['1', '-', '2', '^', '3', '^', '4']).root.descendants.any
      (fun node => !node.hasError && node.kind.isOperation) = true := by
    decide +kernel
  obtain ⟨node, visited, properties⟩ := List.any_eq_true.mp found
  obtain ⟨clean, operation⟩ : node.hasError = false ∧ node.kind.isOperation = true := by
    simpa using properties
  obtain ⟨allowed, grouped, tight⟩ := grouped_of_clean _ node visited clean
  exact ⟨node, visited, clean, operation, allowed, grouped, tight operation⟩

end Parse

end Scrapscript
