import Scrapscript.Proofs.Grammar.Everywhere
import Scrapscript.Proofs.Grammar.Following

/-!
Numbers have no errors inside of them, whether the parse was cut off or not: a number is made of the
next one or two words, and nothing is missing from it.
-/

namespace Scrapscript

open Scrapscript.Tree (leaves hasErrorIn)

/-- What holds of every number: nothing in it is missing or rejected. -/
def Unbroken (kind : NodeKind) (children : List Tree) : Prop :=
  kind = .number → hasErrorIn children = false

theorem unbroken_of_ne {kind : NodeKind} (other : kind ≠ .number) (children : List Tree) :
    Unbroken kind children :=
  fun number => absurd number other

theorem unbroken_of_not_item {kind : NodeKind} (part : kind.isItem = false)
    (children : List Tree) : Unbroken kind children := by
  apply unbroken_of_ne
  rintro rfl
  contradiction

theorem unbroken_error (children : List Tree) : Unbroken .error children :=
  unbroken_of_not_item rfl children

theorem Tree.hasErrorIn_leaves (tokens : List Token) : hasErrorIn (leaves tokens) = false := by
  induction tokens with
  | nil => rfl
  | cons token rest inductionHypothesis =>
      simpa [leaves, hasErrorIn, hasError] using inductionHypothesis

namespace Grammar

open Scrapscript.Phrase Scrapscript.Rule

variable {below : Level} {cursor : Cursor}

theorem hasErrorIn_take (cursor : Cursor) : hasErrorIn (take cursor).trees = false := by
  unfold take
  split
  · exact Tree.hasErrorIn_leaves _
  · simp [Tree.hasErrorIn_append, Tree.hasErrorIn_leaves, hasErrorIn, Tree.hasError]

theorem unbroken_name (_ : cursor.sees .ident = true) : name.Makes Unbroken cursor :=
  makes_take.enclose (unbroken_of_ne (by decide) _)

/-- The sign and the digits of a number are both there. -/
theorem unbroken_number {children : List Tree} {rest : Cursor}
    (found : atom below cursor = .found (.node .number children) rest) :
    hasErrorIn children = false := by
  have built {phrase : Phrase} (found : build .number phrase cursor =
      .found (.node .number children) rest) : children = (phrase cursor.settled).trees := by
    simp only [build, Outcome.found.injEq, Tree.node.injEq] at found
    exact found.1.2.symm
  cases next : cursor.kind? with
  | none => simp [atom, next, nothing] at found
  | some token =>
      cases token <;> simp only [atom, next] at found
      case int | float =>
        rw [built found]
        exact hasErrorIn_take _
      case minus =>
        split at found
        · rw [built found]
          simp [Phrase.sequence, Tree.hasErrorIn_append, hasErrorIn_take]
        · simp [nothing] at found
      case openParen =>
        split at found
        · simp [build] at found
        · simp [build] at found
      all_goals simp [build, nothing] at found

section

variable (unbroken : below.Makes Unbroken)

include unbroken

theorem unbroken_ascription : (ascription below).Makes Unbroken := by
  apply Makes.settled
  intro cursor
  apply makes_extended (unbroken.function cursor.settled)
  · intro cursor _
    exact makes_tokenThen unbroken_error unbroken.function _
  · intro children rest _
    exact unbroken_of_ne (by decide) children

theorem unbroken_binding : (binding below).Makes Unbroken cursor := by
  have ascribed := unbroken_ascription unbroken
  unfold Phrase.Makes binding
  split
  · apply makes_allow
    intro cursor
    apply makes_extended (ascribed cursor)
    · intro cursor _
      exact makes_tokenThen unbroken_error ascribed _
    · intro children rest _
      exact unbroken_of_ne (by decide) children
  · exact makes_missing unbroken_error _

theorem unbroken_expression : (expression below).Makes Unbroken := by
  apply Makes.settled
  intro cursor
  apply makes_grownIf (unbroken_ascription unbroken cursor.settled)
  · intro cursor _
    exact makes_sequence makes_take (unbroken_binding unbroken).only
  · intro node middle inner between _ _
    exact unbroken_of_ne (by decide) inner

theorem unbroken_atom : (atom below).Makes Unbroken := by
  intro cursor
  cases ended : atom below cursor with
  | found node rest =>
      obtain ⟨kind, children, rfl, inside⟩ := makes_inside_atom unbroken_of_not_item unbroken_name
        (unbroken_ascription unbroken) unbroken (unbroken_expression unbroken) ended
      refine ⟨?_, inside⟩
      rintro rfl
      exact unbroken_number ended
  | absent rest => trivial
  | cut node rest => exact absurd ended atom_ne_cut

theorem unbroken_access : (access below).Makes Unbroken := by
  apply Makes.settled
  intro cursor
  apply makes_grownIf (unbroken_atom unbroken cursor.settled)
  · intro cursor _
    exact makes_sequence makes_take (makes_nameOr unbroken_of_not_item unbroken_name).only
  · intro node middle inner between _ _
    exact unbroken_of_ne (by decide) inner

theorem unbroken_application : (application below).Makes Unbroken := by
  have accesses := unbroken_access unbroken
  apply Makes.settled
  intro cursor
  apply makes_grownIf (accesses cursor.settled)
  · intro cursor _
    exact makes_allow accesses
  · intro node middle inner between _ _
    exact unbroken_of_ne (by decide) inner

theorem unbroken_binary (power : Nat) : (binary below power).Makes Unbroken := by
  apply Makes.settled
  intro cursor
  apply makes_grown (unbroken_application unbroken cursor.settled)
  · intro cursor larger grows
    obtain ⟨operator, left, right, -, -, -, rfl⟩ := joining_eq_some grows
    exact makes_sequence (makes_take.enclose (unbroken_of_ne (by decide) _))
      (makes_require unbroken_error (unbroken.binary right) _).only
  · intro node middle inner between larger _ _ grows
    obtain ⟨operator, left, right, -, -, -, rfl⟩ := joining_eq_some grows
    apply unbroken_of_ne
    show operationKind operator ≠ .number
    unfold operationKind
    split <;> decide

theorem unbroken_function : (function below).Makes Unbroken := by
  apply Makes.settled
  intro cursor
  apply makes_extended (unbroken.binary 0 cursor.settled)
  · intro cursor _
    exact makes_tokenThen unbroken_error unbroken.function _
  · intro children rest _
    exact unbroken_of_ne (by decide) children

end

theorem unbroken_ofDepth (depth : Nat) : (Level.ofDepth depth).Makes Unbroken := by
  induction depth with
  | zero => exact ⟨makes_cutOff unbroken_error, fun _ => makes_cutOff unbroken_error⟩
  | succ depth inductionHypothesis =>
      exact ⟨unbroken_function inductionHypothesis, unbroken_binary inductionHypothesis⟩

theorem unbroken_item : item.Makes Unbroken := by
  have expressed : (expression outermost).Makes Unbroken :=
    unbroken_expression (unbroken_ofDepth depthLimit)
  apply Makes.settled
  intro cursor
  apply makes_extended (expressed cursor.settled)
  · intro cursor _
    exact makes_tokenThen unbroken_error expressed _
  · intro children rest _
    exact unbroken_of_ne (by decide) children

end Grammar

/-- Every number of a parse is unbroken. -/
theorem Parse.unbroken_root (text : Text) : (ofText text).root.tree.Everywhere Unbroken :=
  ⟨nofun, Grammar.makes_sourceFile unbroken_of_not_item Grammar.unbroken_item⟩

end Scrapscript
