import Scrapscript.Proofs.Grammar.Following
import Scrapscript.Proofs.Lossless

/-!
A document as a row of items. Where each item is found one after the other, the document is parsed
into these items; and a document without errors is parsed so.
-/

namespace Scrapscript

open Scrapscript.Tree (leaves hasErrorIn)

namespace Grammar

open Scrapscript.Phrase Scrapscript.Rule

variable {cursor rest : Cursor} {node : Tree}

theorem sourceItems_advance : Phrase.Advances (! ·.atEnd) sourceItem :=
  fun _ inside => length_sourceItem_lt (by simpa using inside)

theorem sourceFile_eq {placement : Placement}
    (items : Repeated (! ·.atEnd) sourceItem cursor placement) :
    sourceFile cursor =
      ⟨placement.trees ++ leaves placement.rest.blanks.tokens, placement.rest.settled⟩ := by
  simp [sourceFile, Phrase.sequence, items.many_eq sourceItems_advance, blanks]

theorem sourceItem_of_found (found : item cursor = .found node rest) :
    cursor.atEnd = false ∧ sourceItem cursor = ⟨leaves cursor.blanks.tokens ++ [node], rest⟩ := by
  have meets := item_builds cursor
  rw [found] at meets
  obtain ⟨seen, progress, -⟩ := meets
  constructor
  · cases next : cursor.words with
    | nil => simp [next] at progress
    | cons word more => simp [Cursor.atEnd, next]
  · simp [sourceItem, seen, allow, found]

/-- An item and the items after it. -/
theorem items_of_found {others : Placement} (found : item cursor = .found node rest)
    (later : Repeated (! ·.atEnd) sourceItem rest others) :
    Repeated (! ·.atEnd) sourceItem cursor
      ⟨leaves cursor.blanks.tokens ++ [node] ++ others.trees, others.rest⟩ := by
  obtain ⟨inside, placed⟩ := sourceItem_of_found found
  have more : (!cursor.atEnd) = true := by simp [inside]
  have round : Repeated (! ·.atEnd) sourceItem cursor
      ⟨(sourceItem cursor).trees ++ others.trees, others.rest⟩ :=
    .round more (by rwa [placed])
  rwa [placed] at round

theorem items_of_exhausted (exhausted : cursor.words = []) :
    Repeated (! ·.atEnd) sourceItem cursor ⟨[], cursor⟩ :=
  .done (by simp [Cursor.atEnd, exhausted])

/-- A document of one item. -/
theorem sourceFile_of_found (found : item cursor = .found node rest) (exhausted : rest.words = []) :
    sourceFile cursor =
      ⟨leaves cursor.blanks.tokens ++ [node] ++ leaves rest.blanks.tokens, rest.settled⟩ := by
  have items := items_of_found found (items_of_exhausted exhausted)
  simpa using sourceFile_eq items

/-- A step through a document that leaves no errors finds an item. -/
theorem exists_found_of_clean
    (clean : hasErrorIn (sourceItem cursor).trees = false) :
    ∃ node rest, item cursor = .found node rest ∧ node.hasError = false := by
  cases seen : cursor.seesExpression with
  | false => simp [sourceItem, seen, hasErrorIn_reject] at clean
  | true =>
      simp only [sourceItem, seen, if_true] at clean
      have follows : item.Follows ⟨[], .empty, [], .inl rfl⟩ item := item_follows
      exact follows.exists_found item_builds seen clean

theorem nodes_leaves (tokens : List Token) : (leaves tokens).filter Tree.isNode = [] := by
  simp [leaves, Tree.isNode]

theorem nodes_sourceItem (found : item cursor = .found node rest) :
    (sourceItem cursor).trees.filter Tree.isNode = [node] := by
  have meets := item_builds cursor
  rw [found] at meets
  simp [(sourceItem_of_found found).2, nodes_leaves, meets.2.2.1]

/-- A document without errors that has one item is that item. -/
theorem found_of_single (clean : hasErrorIn (sourceFile cursor).trees = false)
    (single : (sourceFile cursor).trees.filter Tree.isNode = [node]) :
    ∃ rest, item cursor = .found node rest ∧ rest.words = [] ∧ node.hasError = false := by
  have items := sourceItems_advance.many cursor
  generalize many (! ·.atEnd) sourceItem cursor = placement at items
  rw [sourceFile_eq items] at clean single
  simp only [Tree.hasErrorIn_append, Bool.or_eq_false_iff] at clean
  rw [List.filter_append, nodes_leaves, List.append_nil] at single
  cases items with
  | done => contradiction
  | round more later =>
      simp only [Tree.hasErrorIn_append, Bool.or_eq_false_iff] at clean
      obtain ⟨first, rest, found, nodeClean⟩ := exists_found_of_clean clean.1.1
      rw [List.filter_append, nodes_sourceItem found, List.singleton_append,
        List.cons.injEq] at single
      obtain ⟨rfl, none⟩ := single
      refine ⟨rest, found, ?_, nodeClean⟩
      rw [(sourceItem_of_found found).2] at later
      cases later with
      | done ended => simpa [Cursor.atEnd] using ended
      | round more later =>
          simp only [Tree.hasErrorIn_append, Bool.or_eq_false_iff] at clean
          obtain ⟨second, _, secondFound, -⟩ := exists_found_of_clean clean.1.2.1
          simp [nodes_sourceItem secondFound] at none

end Grammar

end Scrapscript
