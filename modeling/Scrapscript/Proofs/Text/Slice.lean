import Scrapscript.Proofs.Tree.Row

/-!
Slices of a text at the boundaries of its parts.
-/

namespace Scrapscript

namespace Text

@[simp]
theorem bytes_append (first second : Text) :
    bytes (first ++ second) = bytes first + bytes second := by
  induction first with
  | nil => simp [bytes]
  | cons char rest inductionHypothesis =>
      simp only [List.cons_append, bytes, inductionHypothesis]
      omega

theorem bytes_replicate (count : Nat) (char : Char) :
    bytes (List.replicate count char) = count * char.utf8Size := by
  induction count with
  | zero => simp [bytes]
  | succ count inductionHypothesis =>
      rw [List.replicate_succ, bytes, inductionHypothesis, Nat.succ_mul, Nat.add_comm]

theorem bytes_cons (char : Char) (rest : Text) :
    ∃ count, bytes (char :: rest) = count + 1 ∧ char.utf8Size ≤ count + 1 ∧
      count + 1 - char.utf8Size = bytes rest := by
  have size : 0 < char.utf8Size := char.utf8Size_pos
  refine ⟨char.utf8Size + bytes rest - 1, ?_, ?_, ?_⟩
  · rw [bytes]
    omega
  · omega
  · omega

theorem dropBytes?_append (before after : Text) :
    dropBytes? before.bytes (before ++ after) = some after := by
  induction before with
  | nil => simp [bytes, dropBytes?]
  | cons char rest inductionHypothesis =>
      obtain ⟨count, sum, fits, left⟩ := bytes_cons char rest
      rw [sum, List.cons_append, dropBytes?, if_pos fits, left, inductionHypothesis]

theorem takeBytes?_append (before after : Text) :
    takeBytes? before.bytes (before ++ after) = some before := by
  induction before with
  | nil => simp [bytes, takeBytes?]
  | cons char rest inductionHypothesis =>
      obtain ⟨count, sum, fits, left⟩ := bytes_cons char rest
      rw [sum, List.cons_append, takeBytes?, if_pos fits, left, inductionHypothesis,
        Option.map_some]

/-- A part of a text is the slice between its ends. -/
theorem slice?_append (before part after : Text) :
    slice? (before ++ part ++ after) before.bytes (before.bytes + part.bytes) = some part := by
  have ordered : ¬ before.bytes + part.bytes < before.bytes := by omega
  have size : before.bytes + part.bytes - before.bytes = part.bytes := by omega
  rw [slice?, if_neg ordered, List.append_assoc, dropBytes?_append, Option.bind_some, size,
    takeBytes?_append]

end Text

theorem Token.bytes_textOf (tokens : List Token) : (textOf tokens).bytes = widthOf tokens := by
  induction tokens with
  | nil => rfl
  | cons token rest inductionHypothesis =>
      rw [widthOf, ← inductionHypothesis]
      simp [textOf, width]

end Scrapscript
