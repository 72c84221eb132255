import Scrapscript.Proofs.Grammar.Places

/-!
The grammar without gaps. On a row without errors the table that lets error nodes stand for missing
pieces agrees with the one that does not.
-/

namespace Scrapscript

open Scrapscript.Tree (isError hasErrorIn)

namespace Grammar

/-- Nothing stands for a missing piece. -/
abbrev noGap : Tree → Bool :=
  fun _ => false

/-- A place for trees without errors only. -/
def cleaned (place : Tree → Bool) (tree : Tree) : Bool :=
  !tree.hasError && place tree

theorem eq_of_cleaned {place other : Tree → Bool} {tree : Tree}
    (same : cleaned place = cleaned other) (clean : tree.hasError = false) :
    place tree = other tree := by
  simpa [cleaned, clean] using congrFun same tree

@[simp]
theorem cleaned_isError : cleaned isError = cleaned noGap := by
  funext tree
  cases error : isError tree with
  | false => simp [cleaned, error]
  | true => simp [cleaned, Tree.hasError_of_isError error]

@[simp]
theorem cleaned_nodeOf (level : NodeKind → Bool) :
    cleaned (nodeOf isError level) = cleaned (nodeOf noGap level) := by
  funext tree
  have gap := congrFun cleaned_isError tree
  simp only [cleaned, nodeOf, Bool.and_or_distrib_left] at gap ⊢
  rw [gap]

@[simp]
theorem cleaned_orGap (place : Tree → Bool) :
    cleaned (orGap isError place) = cleaned (orGap noGap place) := by
  funext tree
  have gap := congrFun cleaned_isError tree
  simp only [cleaned, orGap, Bool.and_or_distrib_left] at gap ⊢
  rw [gap]

@[simp]
theorem cleaned_orComma (level : NodeKind → Bool) :
    cleaned (orComma (nodeOf isError level)) = cleaned (orComma (nodeOf noGap level)) := by
  funext tree
  have nodes := congrFun (cleaned_nodeOf level) tree
  simp only [cleaned, orComma, Bool.and_or_distrib_left] at nodes ⊢
  rw [nodes]

/-- On a row without errors only the clean trees of a place matter. -/
theorem fills_congr {places others : List (Tree → Bool)} {row : List Tree}
    (clean : hasErrorIn row = false) (same : places.map cleaned = others.map cleaned) :
    fills places row = fills others row := by
  induction places generalizing others row with
  | nil =>
      rw [List.map_nil, eq_comm, List.map_eq_nil_iff] at same
      rw [same]
  | cons place places inductionHypothesis =>
      cases others with
      | nil => simp at same
      | cons other others =>
          simp only [List.map_cons, List.cons.injEq] at same
          cases row with
          | nil => rfl
          | cons tree row =>
              simp only [hasErrorIn, Bool.or_eq_false_iff] at clean
              rw [fills, fills, eq_of_cleaned same.1 clean.1, inductionHypothesis clean.2 same.2]

theorem all_congr {place other : Tree → Bool} {row : List Tree}
    (clean : ∀ tree ∈ row, tree.hasError = false) (same : cleaned place = cleaned other) :
    row.all place = row.all other := by
  rw [Bool.eq_iff_iff, List.all_eq_true, List.all_eq_true]
  refine forall₂_congr ?_
  intro tree membership
  rw [eq_of_cleaned same (clean tree membership)]

theorem collects_congr {opener item other closer last : Tree → Bool} {row : List Tree}
    (clean : hasErrorIn row = false) (items : cleaned item = cleaned other)
    (closers : cleaned closer = cleaned last) :
    collects opener item closer row = collects opener other last row := by
  cases row with
  | nil => rfl
  | cons first rest =>
      simp only [Tree.hasErrorIn_eq_false_iff, List.mem_cons, forall_eq_or_imp] at clean
      have inner : rest.dropLast.all item = rest.dropLast.all other :=
        all_congr (fun tree membership => clean.2 tree (List.dropLast_subset rest membership)) items
      have outer : rest.getLast?.any closer = rest.getLast?.any last := by
        cases ended : rest.getLast? with
        | none => rfl
        | some tree =>
            exact eq_of_cleaned closers (clean.2 tree (List.mem_of_getLast? ended))
      rw [collects, collects, inner, outer]

@[simp]
theorem cleaned_isBinding : cleaned (isBinding isError) = cleaned (isBinding noGap) := by
  funext tree
  cases wrong : tree.hasError with
  | true => simp [cleaned, wrong]
  | false =>
      rw [cleaned, cleaned]
      congr 1
      unfold isBinding
      split
      · rename_i children
        simp only [Tree.hasError, Bool.or_eq_false_iff] at wrong
        exact fills_congr (by simpa using wrong.2) (by simp)
      · exact eq_of_cleaned (cleaned_nodeOf _) wrong

theorem allows_congr {row : List Tree} (clean : hasErrorIn row = false) (kind : NodeKind) :
    allows isError kind row = allows noGap kind row := by
  have trees := (Tree.hasErrorIn_eq_false_iff row).mp clean
  cases kind with
  | sourceFile => exact all_congr trees (by simp)
  | list | record => exact collects_congr clean (by simp) (by simp)
  | number | identifier | placeholder | text | bytes | hole | operator | patternMatch | error => rfl
  | recordField | spread =>
      simp only [allows]
      congr 1
      exact fills_congr clean (by simp)
  | patternCase =>
      simp only [allows, caseEnds, List.any_cons, List.any_nil, Bool.or_false]
      congr 1
      · congr 1
        · exact fills_congr clean (by simp)
        · exact fills_congr clean (by simp)
      · congr 1
        · exact fills_congr clean (by simp)
        · exact fills_congr clean (by simp)
  | _ => exact fills_congr clean (by simp)

end Grammar

end Scrapscript
