import Scrapscript.Proofs.Items

/-!
What comes after an expression. Operands are joined as long as an operator follows, so that the next
token is none: in particular, no item of a document begins with a minus sign right after another.
-/

namespace Scrapscript

open Scrapscript.Tree (hasErrorIn)

/-- No minus sign comes after what a rule finds without errors. -/
def Rule.Closes (rule : Rule) : Prop :=
  ∀ cursor node rest, rule cursor = .found node rest → node.hasError = false →
    rest.sees .minus = false

/-- A level whose functions and whose loosest operations have no minus sign after them. -/
structure Level.Closes (below : Level) : Prop where
  function : below.function.Closes
  operation : (below.binary 0).Closes

namespace Grammar

open Scrapscript.Phrase Scrapscript.Rule

variable {below : Level} {cursor : Cursor} {rule other : Rule} {fault : SyntaxFault}

theorem not_sees_of_exhausted {token : TokenKind} (exhausted : cursor.words = []) :
    cursor.sees token = false := by
  simp [Cursor.sees, Cursor.kind?, exhausted]

theorem not_sees_of_required (closes : rule.Closes)
    (clean : hasErrorIn (require rule fault cursor).trees = false) :
    (require rule fault cursor).rest.sees .minus = false := by
  cases ended : rule cursor with
  | found node rest =>
      simp only [require, ended, Tree.hasErrorIn_append, hasErrorIn,
        Bool.or_eq_false_iff] at clean ⊢
      exact closes _ _ _ ended clean.2.1
  | absent rest => simp [require, ended, hasErrorIn_missing] at clean
  | cut node rest => simp [require, ended, hasErrorIn, hasErrorIn_missing] at clean

theorem Closes.settled (closes : rule.Closes) : (Rule.settled rule).Closes :=
  fun cursor => closes cursor.settled

/-- A node, or a larger one that ends with another node. -/
theorem closes_extended {condition : Cursor → Bool} {kind : NodeKind} (closes : rule.Closes)
    (otherCloses : other.Closes) :
    (rule.extended condition kind (sequence [take, require other fault])).Closes := by
  intro cursor node rest found clean
  obtain ⟨inner, middle, innerFound, ⟨-, rfl, rfl⟩ | ⟨-, rfl, rfl⟩⟩ :=
    extended_eq_found_iff.mp found
  · simp only [Tree.hasError, hasErrorIn, Phrase.sequence, Tree.hasErrorIn_append,
      Bool.or_eq_false_iff] at clean ⊢
    exact not_sees_of_required otherCloses clean.2.2.2.1
  · exact closes _ _ _ innerFound clean

/-- The loop over operators stops only where none follows, and a minus sign is one. -/
theorem binary_closes (sound : below.Sound) : (binary below 0).Closes := by
  intro cursor node rest found _
  obtain ⟨_, _, -, -, stopped⟩ := (joining_advances sound 0).grown_eq_found_iff.mp found
  apply Bool.eq_false_iff.mpr
  intro minus
  simp [joining, operatorAt?, eq_of_beq minus, powers?] at stopped

theorem closes_ofDepth (depth : Nat) : (Level.ofDepth depth).Closes := by
  induction depth with
  | zero => exact ⟨nofun, nofun⟩
  | succ depth inductionHypothesis =>
      exact ⟨Closes.settled (closes_extended inductionHypothesis.operation
        inductionHypothesis.function), binary_closes (sound_ofDepth depth)⟩

theorem ascription_closes (closes : below.Closes) : (ascription below).Closes :=
  Closes.settled (closes_extended closes.function closes.function)

/-- A binding is found, unless the parse is cut off there; then nothing comes after it. -/
theorem not_sees_of_binding (sound : below.Sound) (closes : below.Closes)
    (clean : hasErrorIn (binding below cursor).trees = false) :
    (binding below cursor).rest.sees .minus = false := by
  have ascribed := ascription_closes closes
  unfold binding at clean ⊢
  split at clean
  · rename_i seen
    rw [if_pos seen]
    have meets := bound_builds sound cursor
    generalize ended : (ascription below).extended (·.sees .equals) .declaration
      (sequence [take, require (ascription below) .missingBoundExpression]) cursor = outcome
      at meets
    cases outcome with
    | found node rest =>
        simp only [allow, ended, Tree.hasErrorIn_append, hasErrorIn,
          Bool.or_eq_false_iff] at clean ⊢
        exact closes_extended ascribed ascribed _ _ _ ended clean.2.1
    | absent rest => simp [Outcome.Meets, seen] at meets
    | cut node rest =>
        simp only [allow, ended]
        exact not_sees_of_exhausted meets.2.1
  · simp [hasErrorIn_missing] at clean

theorem expression_closes (sound : below.Sound) (closes : below.Closes) :
    (expression below).Closes := by
  intro cursor node rest found clean
  obtain ⟨inner, middle, innerFound, grown, -⟩ :=
    (clauses_advance sound).grown_eq_found_iff.mp found
  cases grown with
  | start => exact ascription_closes closes _ _ _ innerFound clean
  | step before grows =>
      obtain ⟨-, rfl⟩ := Growth.onlyIf_eq_some_iff.mp grows
      simp only [Tree.hasError, hasErrorIn, Phrase.sequence, Tree.hasErrorIn_append,
        Bool.or_eq_false_iff] at clean ⊢
      exact not_sees_of_binding sound closes clean.2.2.2.1

theorem item_closes : item.Closes := by
  have expressed : (expression outermost).Closes :=
    expression_closes (sound_ofDepth depthLimit) (closes_ofDepth depthLimit)
  exact Closes.settled (closes_extended expressed expressed)

end Grammar

end Scrapscript
