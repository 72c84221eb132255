import Scrapscript.Proofs.Coordinates
import Scrapscript.Proofs.Lossless
import Scrapscript.Proofs.Token.Replacement
import Scrapscript.Reference

/-!
Edits of a document. The ranges of some edits are those of the document before any of them is made;
where they are the ranges of tokens, the edits spell these tokens anew and keep all others.
-/

namespace Scrapscript

namespace LineIndex

variable {text before : Text}

/-- The ends of a range lead back to the offsets that it was made of. -/
theorem offset?_range {part after : Text} (split : text = before ++ part ++ after) :
    let range := (ofText text).range before.bytes (before.bytes + part.bytes)
    (ofText text).offset? range.start = some before.bytes ∧
      (ofText text).offset? range.stop = some (before.bytes + part.bytes) := by
  have begins : before <+: text := ⟨part ++ after, by simp [split]⟩
  have laterBegins : before ++ part <+: text := ⟨after, split.symm⟩
  have ordered := endPosition_le_of_bytes_le begins laterBegins (by simp)
  rw [← position_bytes begins, ← position_bytes laterBegins, Text.bytes_append] at ordered
  obtain ⟨start, stop⟩ := Range.between_of_le ordered
  have stops := offset?_position laterBegins
  rw [Text.bytes_append] at stops
  exact ⟨by rw [range, start, offset?_position begins], by rw [range, stop, stops]⟩

end LineIndex

namespace Document

/-- The text from an offset on after some edits, which have to come in document order and must not
overlap. -/
def editedFrom? (document : Document) : Nat → List TextEdit → Option Text
  | done, [] => document.text.slice? done document.text.bytes
  | done, edit :: rest => do
      let start ← document.offset? edit.range.start
      let stop ← document.offset? edit.range.stop
      let kept ← document.text.slice? done start
      let _ ← document.text.slice? start stop
      let others ← document.editedFrom? stop rest
      some (kept ++ edit.replacement.toList ++ others)

/-- The text after some edits. -/
def edited? (document : Document) (edits : List TextEdit) : Option Text :=
  document.editedFrom? 0 edits

section

variable {document : Document} (indexed : document.index = .ofText document.text)
  {front kept : Text} {name : String}

include indexed

/-- One edit: what is kept before it, what it puts in, and what comes of the rest. -/
theorem editedFrom?_cons {part after others : Text} {edits : List TextEdit}
    (split : document.text = front ++ kept ++ part ++ after)
    (edited : document.editedFrom? (front ++ kept ++ part).bytes edits = some others) :
    document.editedFrom? front.bytes
        (⟨document.range (front ++ kept).bytes (front ++ kept ++ part).bytes, name⟩ :: edits) =
      some (kept ++ name.toList ++ others) := by
  have ends := LineIndex.offset?_range split
  rw [← Text.bytes_append, ← indexed] at ends
  have before : document.text.slice? front.bytes (front ++ kept).bytes = some kept := by
    rw [split, Text.bytes_append, List.append_assoc (front ++ kept)]
    exact Text.slice?_append _ _ _
  have inside : document.text.slice? (front ++ kept).bytes (front ++ kept ++ part).bytes =
      some part := by
    rw [split, Text.bytes_append (front ++ kept)]
    exact Text.slice?_append _ _ _
  simp only [editedFrom?, offset?, range, ends, before, inside, edited, Option.bind_eq_bind,
    Option.bind_some]

/-- Edits of tokens, wherever one begins. -/
theorem editedFrom?_leaves {marked : Leaf → Bool} {leaves : List Leaf}
    (whole : document.text = front ++ kept ++ Token.textOf (leaves.map Leaf.token))
    (located : leaves.map (fun leaf => (leaf.token, leaf.start)) =
      Token.located (front ++ kept).bytes (leaves.map Leaf.token)) :
    document.editedFrom? front.bytes
        ((leaves.filter marked).map fun leaf => ⟨document.leafRange leaf, name⟩) =
      some (kept ++ Token.textOf
        (leaves.map fun leaf => Token.respelled name.toList (leaf.token, marked leaf))) := by
  induction leaves generalizing front kept with
  | nil =>
      have slice := Text.slice?_append front kept []
      simp only [List.map_nil, Token.textOf, List.flatMap_nil] at whole slice ⊢
      rw [List.filter_nil, List.map_nil, editedFrom?, whole]
      simpa using slice
  | cons leaf rest inductionHypothesis =>
      simp only [List.map_cons, Token.located, List.cons.injEq, Prod.mk.injEq, true_and] at located
      obtain ⟨start, later⟩ := located
      have split : document.text =
          front ++ kept ++ leaf.text ++ Token.textOf (rest.map Leaf.token) := by
        simpa [Token.textOf, Leaf.text] using whole
      have stop : (front ++ kept).bytes + leaf.token.width =
          (front ++ kept ++ leaf.text).bytes := by
        rw [Text.bytes_append (front ++ kept)]
        rfl
      rw [stop] at later
      cases isMarked : marked leaf with
      | false =>
          have longer : document.text =
              front ++ (kept ++ leaf.text) ++ Token.textOf (rest.map Leaf.token) := by
            simpa using split
          have others := inductionHypothesis longer (by simpa using later)
          rw [List.filter_cons_of_neg (by simp [isMarked]), others]
          simp [Token.textOf, Token.respelled, isMarked, Leaf.text]
      | true =>
          have past : document.text =
              front ++ kept ++ leaf.text ++ [] ++ Token.textOf (rest.map Leaf.token) := by
            simpa using split
          have others := inductionHypothesis past (by simpa using later)
          rw [List.filter_cons_of_pos isMarked, List.map_cons, leafRange, Leaf.stop, start, stop,
            editedFrom?_cons indexed split others]
          simp [Token.textOf, Token.respelled, isMarked]

end

end Document

end Scrapscript
