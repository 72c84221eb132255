import Scrapscript.Proofs.Grammar.Places

/-!
The loose constructs of the grammar keep to its table, given that the level below does: functions,
type ascriptions and where clauses.
-/

namespace Scrapscript

open Scrapscript.Tree (isError)

/-- What an operand of an operator that binds with some power is, and where it ends. -/
structure Operand (power : Nat) (node : Tree) (rest : Cursor) : Prop where
  leveled : node.isNodeOf NodeKind.isBinary = true
  tight : ∀ inner, node.outerPowers? = some inner → power ≤ inner.1
  ended : Grammar.operatorAt? power rest = none

/-- A level at which functions and operations come out as the grammar says. -/
structure Level.Sound (below : Level) : Prop where
  function : below.function.Builds (Grammar.Leveled NodeKind.isFunctional)
  binary : ∀ power, (below.binary power).Builds (Operand power)

theorem Level.Sound.operand {below : Level} (sound : below.Sound) (power : Nat) :
    (below.binary power).Builds (Grammar.Leveled NodeKind.isBinary) :=
  (sound.binary power).mono fun _ _ operand => operand.leveled

namespace Grammar

open Scrapscript.Phrase Scrapscript.Rule

variable {below : Level}

theorem ascription_builds (sound : below.Sound) :
    (ascription below).Builds (Leveled NodeKind.isAscribed) := by
  apply builds_extended sound.function rfl (by decide) (fun _ => rfl) (fun cursor seen =>
    yields_tokenThen seen (by decide) (yields_required sound.function _ _))
  · intro row filled
    exact filled
  · rfl
  · intro kind functional
    simp [NodeKind.isAscribed, functional]

theorem function_builds (sound : below.Sound) :
    (function below).Builds (Leveled NodeKind.isFunctional) := by
  apply builds_extended (sound.operand 0) rfl (by decide) (fun _ => rfl) (fun cursor seen =>
    yields_tokenThen seen (by decide) (yields_required sound.function _ _))
  · intro row filled
    exact filled
  · rfl
  · intro kind binary
    simp [NodeKind.isFunctional, binary]

theorem isBinding_of_isAscribed {gap : Tree → Bool} {node : Tree}
    (isNode : node.isNodeOf NodeKind.isAscribed = true) : isBinding gap node = true := by
  unfold isBinding
  split
  · exact absurd isNode Bool.false_ne_true
  · simp [nodeOf, isNode]

theorem isBinding_of_isError {node : Tree} (error : isError node = true) :
    isBinding isError node = true := by
  unfold isBinding
  split
  · simp [Tree.isError, Tree.isNodeOf] at error
  · simp [nodeOf, error]

theorem nodeOf_isExpression {gap : Tree → Bool} (tree : Tree)
    (placed : nodeOf gap NodeKind.isAscribed tree = true) :
    nodeOf gap NodeKind.isExpression tree = true := by
  refine nodeOf_mono (fun kind ascribed => ?_) tree placed
  simp [NodeKind.isExpression, ascribed]

/-- What a binding is built by: an ascription, or a declaration of one. -/
theorem bound_builds (sound : below.Sound) :
    ((ascription below).extended (·.sees .equals) .declaration
      (sequence [take, require (ascription below) .missingBoundExpression])).Builds
        fun node _ => isBinding isError node = true := by
  apply (ascription_builds sound).extended (by decide) (fun cursor seen =>
    yields_tokenThen seen (by decide) (yields_required (ascription_builds sound) _ _))
  · intro node rest row ending leveled filled
    apply Formed.around (fun _ => rfl) rfl leveled
    apply fills_mono nodeOf_isExpression (fills_mono (fun _ equals => equals)
      (fills_mono nodeOf_isExpression fun _ empty => empty))
    simp [fills, filled, nodeOf_isError (.inr leveled)]
  · intro node rest children ending leveled filled
    have isNode : node.isNode = true := Tree.isNodeOf_mono (fun _ _ => rfl) leveled
    simp [isBinding, withoutTrivia_isNode isNode, fills, filled, nodeOf_isError (.inr leveled)]
  · intro node rest leveled
    exact isBinding_of_isAscribed leveled

theorem binding_yields (sound : below.Sound) (cursor : Cursor) :
    (binding below).Yields cursor fun row _ => fills [isBinding isError] row = true := by
  have declared := bound_builds sound
  cases seen : cursor.seesExpression with
  | true =>
      apply ((declared.allowed seen).mono ?_).of_eq (by simp [binding, seen])
      intro row rest yielded
      obtain ⟨node, rfl, isBinding, -⟩ := yielded
      simp [fills, isBinding]
  | false =>
      apply ((yields_missing .missingBinding).mono ?_).of_eq (by simp [binding, seen])
      intro row rest yielded
      obtain ⟨node, rfl, error⟩ := yielded
      simp [fills, isBinding_of_isError error]

theorem expression_builds (sound : below.Sound) :
    (expression below).Builds (Leveled NodeKind.isExpression) := by
  have binding (cursor : Cursor) := (binding_yields sound cursor).only
  apply builds_grown (ascription_builds sound) rfl (by decide) (fun _ => rfl)
    (fun cursor seen => yields_tokenThen seen (by decide) (binding _))
    (fun cursor seen => length_takeThen_lt seen (binding _))
  · intro row filled
    exact filled
  · rfl
  · intro kind ascribed
    simp [NodeKind.isExpression, ascribed]

end Grammar

end Scrapscript
