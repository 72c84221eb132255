import Scrapscript.Proofs.Composition
import Scrapscript.Proofs.Grammar.Closing
import Scrapscript.Proofs.Grammar.Sign
import Scrapscript.Proofs.Tree.Nesting

/-!
The minus signs of a document without errors. A run along its significant tokens goes through each
item, and no item begins with a minus sign right after another one; so the token before a minus sign
tells whether it is an operator or the sign of a number.
-/

namespace Scrapscript

open Scrapscript.Tree (isNodeOf hasErrorIn EverywhereIn Signs signs_nil signs_append signs_blanks)

namespace Grammar

open Scrapscript.Phrase

/-- An item is entered in both states, since no minus sign comes after an operand. -/
theorem signs_foundItem {cursor rest : Cursor} {node : Tree} {operand : Bool}
    (found : item cursor = .found node rest) (isItem : node.isNodeOf NodeKind.isItem = true)
    (legible : node.Everywhere Legible) (ready : operand = true → cursor.sees .minus = false) :
    Signs .sourceFile operand [node] true := by
  have entered : Takes .sourceFile false (isNodeOf NodeKind.isItem) true := takes_node rfl
  have signs := entered node isItem legible
  cases operand with
  | false => exact signs
  | true =>
      have meets := item_builds cursor
      rw [found] at meets
      obtain ⟨-, progress, -, placed, -⟩ := meets
      cases next : cursor.words with
      | nil => simp [next] at progress
      | cons word more =>
          refine signs.anyway (placed.head_tokens rfl next progress) word.significant ?_
          intro minus
          have unseen := ready rfl
          simp [Cursor.sees, Cursor.kind?, next, minus] at unseen

/-- A run goes through the items of a document one after the other. -/
theorem exists_signs_items {cursor : Cursor} {placement : Placement} {operand : Bool}
    (items : Repeated (! ·.atEnd) sourceItem cursor placement)
    (clean : hasErrorIn placement.trees = false)
    (nodes : ∀ tree ∈ placement.trees, tree.isNode = true → tree.isNodeOf NodeKind.isItem = true)
    (legible : EverywhereIn Legible placement.trees)
    (ready : operand = true → cursor.sees .minus = false) :
    ∃ next, Signs .sourceFile operand placement.trees next := by
  induction items generalizing operand with
  | done => exact ⟨operand, signs_nil⟩
  | @round cursor others more later inductionHypothesis =>
      rw [Tree.hasErrorIn_append, Bool.or_eq_false_iff] at clean
      obtain ⟨node, rest, found, nodeClean⟩ := exists_found_of_clean clean.1
      obtain ⟨-, placed⟩ := sourceItem_of_found found
      rw [placed] at nodes legible inductionHypothesis ⊢
      obtain ⟨first, others⟩ := List.forall_mem_append.mp nodes
      obtain ⟨firstLegible, othersLegible⟩ := (Tree.everywhereIn_append _ _).mp legible
      have isNode : node.isNode = true := by
        have meets := item_builds cursor
        rw [found] at meets
        exact meets.2.2.1
      have itself : Signs .sourceFile operand [node] true :=
        signs_foundItem found (first node (by simp) isNode)
          (Tree.everywhere_of_mem firstLegible (by simp)) ready
      have closed := item_closes cursor node rest found nodeClean
      obtain ⟨next, after⟩ := inductionHypothesis clean.2 others othersLegible fun _ => closed
      exact ⟨next, signs_append (signs_append (signs_blanks _) itself) after⟩

end Grammar

theorem Leaf.isTrivia_of_kind {leaf : Leaf} {kind : TokenKind} (same : leaf.kind = kind)
    (significant : kind.isTrivia = false) : leaf.isTrivia = false := by
  rwa [← same] at significant

namespace Parse

variable {text : Text}

theorem errors_eq_nil (clean : (ofText text).root.hasError = false) : (ofText text).errors = [] :=
  Decidable.not_not.mp (mt (hasError_root text).mpr (Bool.eq_false_iff.mp clean))

/-- In a document without errors every node is orderly. -/
theorem orderly_root (clean : (ofText text).root.hasError = false) :
    (ofText text).root.tree.Everywhere Orderly := by
  have begun := begun_root text
  apply Node.everywhere_of_forall
  intro node visited
  have nodeClean := Node.clean_of_descendant clean visited
  obtain ⟨allowed, grouped⟩ := Node.holds_of_descendant (grouped_root text) visited nodeClean
  exact ⟨allowed, grouped, fun list => separates_list visited list nodeClean,
    Node.holds_of_descendant begun visited⟩

/-- A run goes through a document without errors. -/
theorem exists_signs_root (clean : (ofText text).root.hasError = false) :
    ∃ next, Signs .sourceFile false (ofText text).items next := by
  have orderly := orderly_root clean
  have allowed := List.all_eq_true.mp orderly.1.allowed
  have legible : EverywhereIn Legible (ofText text).items :=
    (Tree.legible_of_orderly _ orderly).2
  have itemsClean := hasErrorIn_items (errors_eq_nil clean)
  have items := Grammar.sourceItems_advance.many (Cursor.ofTokens (Lexer.tokenize text))
  generalize Phrase.many (! ·.atEnd) Grammar.sourceItem
    (Cursor.ofTokens (Lexer.tokenize text)) = placement at items
  have trees : (ofText text).items =
      placement.trees ++ Tree.leaves placement.rest.blanks.tokens := by
    rw [ofText, ofTokens, Grammar.sourceFile_eq items]
  rw [trees] at legible itemsClean ⊢
  rw [Tree.hasErrorIn_append, Bool.or_eq_false_iff] at itemsClean
  have nodes : ∀ tree ∈ placement.trees, tree.isNode = true →
      tree.isNodeOf NodeKind.isItem = true := by
    intro tree listed isNode
    have significant : (!tree.isTrivia) = true := by
      cases tree with
      | leaf => contradiction
      | node => rfl
    refine Grammar.isNodeOf_of_nodeOf (allowed tree (List.mem_filter.mpr ⟨?_, significant⟩))
    show tree ∈ (ofText text).items
    rw [trees]
    exact List.mem_append_left _ listed
  have through : ∃ next, Signs .sourceFile false placement.trees next :=
    Grammar.exists_signs_items items itemsClean.1 nodes
      ((Tree.everywhereIn_append _ _).mp legible).1 (by simp)
  obtain ⟨next, signs⟩ := through
  exact ⟨next, signs_append signs (signs_blanks _)⟩

/-- The node around a minus sign in a document without errors depends on the significant token
before it. -/
theorem parent_of_minus (clean : (ofText text).root.hasError = false) {earlier later : List Leaf}
    {leaf : Leaf} (split : (ofText text).root.leaves = earlier ++ leaf :: later)
    (minus : leaf.kind = .minus) :
    leaf.parent?.map Node.kind =
      some (if (earlier.filter (! ·.isTrivia)).getLast?.any (·.kind.endsOperand)
        then .operator else .number) := by
  have seats := (ofText text).root.seat_leaves
  have significant := Leaf.isTrivia_of_kind minus rfl
  rw [split, List.filter_append, List.filter_cons_of_pos (by simp [significant]),
    List.map_append, List.map_cons] at seats
  obtain ⟨next, signs⟩ := exists_signs_root clean
  have ran : Seat.run false (Tree.seatsOf (ofText text).root.kind (ofText text).root.children) =
      some next := signs
  rw [← seats] at ran
  have placed := Seat.node_of_run ran minus
  rwa [List.getLast?_map, Option.any_map] at placed

end Parse

end Scrapscript
