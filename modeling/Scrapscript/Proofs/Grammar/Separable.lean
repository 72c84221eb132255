import Scrapscript.Proofs.Grammar.Alone
import Scrapscript.Proofs.Grammar.Everywhere

/-!
The grammar builds nodes that stand alone. Each construct adds nodes of its own to those of its
parts; what is left to say at each of them is that the node just built stands alone.
-/

namespace Scrapscript

theorem standsAlone_of_not_item {kind : NodeKind} (part : kind.isItem = false)
    (children : List Tree) : StandsAlone kind children := by
  intro _ item
  simp [part] at item

theorem standsAlone_error (row : List Tree) : StandsAlone .error row :=
  standsAlone_of_not_item rfl row

namespace Grammar

open Scrapscript.Phrase Scrapscript.Rule

variable {depth : Nat} {cursor : Cursor}

theorem separable_name (seen : cursor.sees .ident = true) : name.Makes StandsAlone cursor := by
  have next : cursor.settled.kind? = some .ident := eq_of_beq seen
  have found : atom (.ofDepth 0) cursor.settled =
      .found (.node .identifier (take cursor.settled).trees) (take cursor.settled).rest := by
    simp [atom, next, build]
  refine makes_blanks _ ⟨⟨fun clean _ => ?_, makes_take⟩, trivial⟩
  exact atom_alone clean (Nat.zero_le _) found

theorem separable_fieldName : fieldName.Makes StandsAlone cursor :=
  makes_nameOr standsAlone_of_not_item separable_name

theorem separable_ascription (shallow : depth ≤ depthLimit)
    (function : (Level.ofDepth depth).function.Makes StandsAlone) :
    (ascription (.ofDepth depth)).Makes StandsAlone := by
  apply Makes.settled
  intro cursor
  apply makes_extended (function cursor.settled)
  · intro cursor _
    exact makes_tokenThen standsAlone_error function _
  · intro children rest found clean _
    apply ascription_alone clean shallow
    rwa [ascription_settled]

theorem separable_binding (shallow : depth ≤ depthLimit)
    (function : (Level.ofDepth depth).function.Makes StandsAlone) :
    (binding (.ofDepth depth)).Makes StandsAlone cursor := by
  have ascribed := separable_ascription shallow function
  unfold Phrase.Makes binding
  split
  · apply makes_allow
    intro cursor
    apply makes_extended (ascribed cursor)
    · intro cursor _
      exact makes_tokenThen standsAlone_error ascribed _
    · intro children rest found clean _
      apply bound_alone clean shallow
      simpa only [Rule.extended, ascription_settled] using found
  · exact makes_missing standsAlone_error _

theorem separable_expression (shallow : depth ≤ depthLimit)
    (function : (Level.ofDepth depth).function.Makes StandsAlone) :
    (expression (.ofDepth depth)).Makes StandsAlone := by
  apply Makes.settled
  intro cursor
  apply makes_grownIf (separable_ascription shallow function cursor.settled)
  · intro cursor _
    exact makes_sequence makes_take (separable_binding shallow function).only
  · intro node middle inner between found grown clean _
    exact expression_alone clean shallow found grown

theorem separable_atom (shallow : depth ≤ 254)
    (separable : (Level.ofDepth depth).Makes StandsAlone) (cursor : Cursor) :
    (atom (.ofDepth depth) cursor.settled).Makes StandsAlone := by
  cases ended : atom (.ofDepth depth) cursor.settled with
  | found node rest =>
      have enough : depth ≤ depthLimit := Nat.le_trans shallow (by decide)
      obtain ⟨kind, children, rfl, inside⟩ := makes_inside_atom standsAlone_of_not_item
        separable_name (separable_ascription enough separable.function) separable
        (separable_expression enough separable.function) ended
      exact ⟨fun clean _ => atom_alone clean shallow ended, inside⟩
  | absent rest => trivial
  | cut node rest => exact absurd ended atom_ne_cut

theorem separable_access (shallow : depth ≤ 254)
    (separable : (Level.ofDepth depth).Makes StandsAlone) :
    (access (.ofDepth depth)).Makes StandsAlone := by
  apply Makes.settled
  intro cursor
  apply makes_grownIf (separable_atom shallow separable cursor)
  · intro cursor _
    exact makes_sequence makes_take separable_fieldName.only
  · intro node middle inner between found grown clean _
    exact access_alone clean shallow found grown

theorem separable_application (shallow : depth ≤ 254)
    (separable : (Level.ofDepth depth).Makes StandsAlone) :
    (application (.ofDepth depth)).Makes StandsAlone := by
  have accesses := separable_access shallow separable
  apply Makes.settled
  intro cursor
  apply makes_grownIf (accesses cursor.settled)
  · intro cursor _
    exact makes_allow accesses
  · intro node middle inner between found grown clean _
    exact application_alone clean shallow found grown

theorem separable_binary (shallow : depth ≤ 254)
    (separable : (Level.ofDepth depth).Makes StandsAlone) (power : Nat) :
    (binary (.ofDepth depth) power).Makes StandsAlone := by
  apply Makes.settled
  intro cursor
  apply makes_grown (separable_application shallow separable cursor.settled)
  · intro cursor larger grows
    obtain ⟨operator, left, right, -, -, -, rfl⟩ := joining_eq_some grows
    exact makes_sequence (makes_take.enclose (standsAlone_of_not_item rfl _))
      (makes_require standsAlone_error (separable.binary right) _).only
  · intro node middle inner between larger found grown grows clean _
    exact binary_alone clean shallow found (.step grown grows)

theorem separable_function (shallow : depth ≤ 255)
    (separable : (Level.ofDepth depth).Makes StandsAlone) :
    (function (.ofDepth depth)).Makes StandsAlone := by
  apply Makes.settled
  intro cursor
  apply makes_extended (separable.binary 0 cursor.settled)
  · intro cursor _
    exact makes_tokenThen standsAlone_error separable.function _
  · intro children rest found clean _
    apply function_alone clean shallow
    rwa [function, Rule.settled, Cursor.settled_settled]

theorem separable_ofDepth (shallow : depth ≤ 255) : (Level.ofDepth depth).Makes StandsAlone := by
  induction depth with
  | zero => exact ⟨makes_cutOff standsAlone_error, fun _ => makes_cutOff standsAlone_error⟩
  | succ depth inductionHypothesis =>
      have separable := inductionHypothesis (Nat.le_of_succ_le shallow)
      exact ⟨separable_function (Nat.le_of_succ_le shallow) separable,
        separable_binary (Nat.le_of_succ_le_succ shallow) separable⟩

theorem separable_item : item.Makes StandsAlone := by
  have function : outermost.function.Makes StandsAlone :=
    separable_function (Nat.le_refl 255) (separable_ofDepth (Nat.le_refl 255))
  have expressed := separable_expression (Nat.le_refl depthLimit) function
  apply Makes.settled
  intro cursor
  apply makes_extended (expressed cursor.settled)
  · intro cursor _
    exact makes_tokenThen standsAlone_error expressed _
  · intro children rest found clean _
    apply item_alone clean
    rwa [item, Rule.settled, Cursor.settled_settled]

theorem separable_sourceFile {cursor : Cursor} : sourceFile.Makes StandsAlone cursor :=
  makes_sourceFile standsAlone_of_not_item separable_item

end Grammar

end Scrapscript
