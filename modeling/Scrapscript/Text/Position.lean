import Scrapscript.Text

/-!
Editor coordinates: lines and columns counted from zero, columns in UTF-16 units.
-/

namespace Scrapscript

structure Position where
  line : Nat
  character : Nat
deriving DecidableEq, Repr

namespace Position

/-- Positions are ordered by line, then by column. -/
instance : LT Position where
  lt left right :=
    left.line < right.line ∨ (left.line = right.line ∧ left.character < right.character)

instance : LE Position where
  le left right := ¬ right < left

instance (left right : Position) : Decidable (left < right) :=
  inferInstanceAs (Decidable (_ ∨ _))

instance (left right : Position) : Decidable (left ≤ right) :=
  inferInstanceAs (Decidable (¬ _))

theorem le_of_lt {left right : Position} (before : left < right) : left ≤ right := by
  intro after
  rcases before with line | ⟨line, character⟩ <;>
    rcases after with line' | ⟨line', character'⟩ <;> omega

theorem lt_irrefl (position : Position) : ¬ position < position :=
  fun before => le_of_lt before before

end Position

/-- A stretch of a document whose ends are in order. -/
structure Range where
  start : Position
  stop : Position
  ordered : start ≤ stop
deriving DecidableEq

namespace Range

/-- The range between two positions, given in either order. -/
def between (left right : Position) : Range :=
  if swapped : right < left then ⟨right, left, Position.le_of_lt swapped⟩
  else ⟨left, right, swapped⟩

def zero : Range :=
  between ⟨0, 0⟩ ⟨0, 0⟩

/-- Whether a position lies in the range, both ends included. -/
def contains (range : Range) (position : Position) : Bool :=
  decide (range.start ≤ position) && decide (position ≤ range.stop)

def isEmpty (range : Range) : Bool :=
  range.start == range.stop

end Range

end Scrapscript
