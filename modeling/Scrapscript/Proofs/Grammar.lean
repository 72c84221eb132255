import Scrapscript.Grammar
import Scrapscript.Proofs.Grammar.Operation

/-!
A whole document is parsed by the moves of the grammar, up to its last token.
-/

namespace Scrapscript

open Scrapscript.Tree (withoutTrivia isError)

namespace Grammar

open Scrapscript.Phrase Scrapscript.Rule

variable {cursor : Cursor}

theorem item_builds : item.Builds (Leveled NodeKind.isItem) := by
  have sound : outermost.Sound := sound_ofDepth depthLimit
  apply builds_extended (expression_builds sound) rfl (by decide) (fun _ => rfl) (fun cursor seen =>
    yields_tokenThen seen (by decide) (yields_required (expression_builds sound) _ _))
  · intro row filled
    exact filled
  · rfl
  · intro kind expression
    simp [NodeKind.isItem, expression]

theorem sourceItem_yields (inside : cursor.atEnd = false) :
    sourceItem.Yields cursor
      fun row _ => ∀ tree ∈ row, nodeOf isError NodeKind.isItem tree = true := by
  cases seen : cursor.seesExpression with
  | true =>
      apply ((item_builds.allowed seen).mono ?_).of_eq (by simp [sourceItem, seen])
      intro row rest yielded
      obtain ⟨node, rfl, leveled, -⟩ := yielded
      simpa using nodeOf_isError (.inr leveled)
  | false =>
      apply ((yields_reject (.unexpected cursor.nextText) inside).mono ?_).of_eq
        (by simp [sourceItem, seen])
      intro row rest yielded
      obtain ⟨node, rfl, error⟩ := yielded
      simp [nodeOf, error]

theorem length_sourceItem_lt (inside : cursor.atEnd = false) :
    (sourceItem cursor).rest.words.length < cursor.words.length := by
  obtain ⟨word, more, next⟩ := Cursor.atEnd_eq_false_iff.mp inside
  have begun : cursor.words ≠ [] := by simp [next]
  cases seen : cursor.seesExpression with
  | true => simpa [sourceItem, seen] using item_builds.length_allowed_lt seen begun
  | false =>
      have advanced := Cursor.length_advanced_lt begun
      simpa [sourceItem, seen, reject_eq _ next] using advanced

theorem sourceItems_yield (cursor : Cursor) :
    (many (! ·.atEnd) sourceItem).Yields cursor
      fun row _ => ∀ tree ∈ row, nodeOf isError NodeKind.isItem tree = true := by
  apply yields_many
  intro cursor inside
  exact sourceItem_yields (by simpa using inside)

/-- A document ends with the blanks that no item has taken. -/
theorem sourceFile_placed (cursor : Cursor) :
    Placed cursor (sourceFile cursor).trees (sourceFile cursor).rest :=
  .append (sourceItems_yield cursor).placed (placed_blanks _)

theorem allows_sourceFile (shallow : (sourceFile cursor).rest.tooDeep = false) :
    allows isError .sourceFile (withoutTrivia (sourceFile cursor).trees) = true := by
  have items := (sourceItems_yield cursor).result shallow
  simpa [sourceFile, Phrase.sequence, blanks, allows, List.all_eq_true] using items

/-- Each item uses up a word, so that the last one leaves only blanks. -/
theorem remaining_sourceFile (cursor : Cursor) : (sourceFile cursor).rest.remaining = [] := by
  have progress (cursor : Cursor) (inside : (!cursor.atEnd) = true) :
      (sourceItem cursor).rest.words.length < cursor.words.length :=
    length_sourceItem_lt (by simpa using inside)
  have ended := repeated_rest progress cursor.words cursor (Nat.le_refl _)
  have exhausted : (many (! ·.atEnd) sourceItem cursor).rest.words = [] := by
    rcases ended with atEnd | exhausted
    · simpa [many, Cursor.atEnd] using atEnd
    · exact exhausted
  simp [sourceFile, Phrase.sequence, blanks, Cursor.remaining, exhausted]

end Grammar

/-- What a parse of a token run is: a run of the grammar from the first token to the last. -/
theorem Parse.ofTokens_placed (tokens : List Token) :
    ∃ rest, Placed (.ofTokens tokens) (ofTokens tokens).items rest ∧ rest.remaining = [] ∧
      (ofTokens tokens).errors = rest.errors.reverse ∧ (ofTokens tokens).tooDeep = rest.tooDeep ∧
      (rest.tooDeep = false →
        Grammar.allows isError .sourceFile (withoutTrivia (ofTokens tokens).items) = true) := by
  exact ⟨_, Grammar.sourceFile_placed _, Grammar.remaining_sourceFile _, rfl, rfl,
    Grammar.allows_sourceFile⟩

end Scrapscript
