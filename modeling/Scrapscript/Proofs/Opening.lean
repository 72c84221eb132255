import Scrapscript.Document

/-!
Which texts open as documents: those whose offsets fit into 32 bits and which do not nest beyond
the limit of the parser. Every other text fails for one of these two reasons.
-/

namespace Scrapscript

namespace Document

variable {document : Document} {text : Text}

/-- What becomes of a text. The size is looked at before the text is parsed. -/
theorem ofText_cases (text : Text) :
    (UInt32.size ≤ text.bytes ∧ ofText text = .error (.tooLarge text.bytes)) ∨
      (text.bytes < UInt32.size ∧ (Parse.ofText text).tooDeep = true ∧
        ofText text = .error (.tooDeep Grammar.depthLimit)) ∨
      text.bytes < UInt32.size ∧ (Parse.ofText text).tooDeep = false ∧
        ofText text = .ok ⟨text, .ofText text, .ofText text⟩ := by
  by_cases large : UInt32.size ≤ text.bytes
  · exact .inl ⟨large, by rw [ofText, if_pos large]⟩
  · have small := Nat.lt_of_not_le large
    rw [ofText, if_neg large]
    cases deep : (Parse.ofText text).tooDeep with
    | true => exact .inr (.inl ⟨small, rfl, by simp [deep]⟩)
    | false => exact .inr (.inr ⟨small, rfl, by simp [deep]⟩)

theorem ofText_eq_ok_iff :
    ofText text = .ok document ↔ text.bytes < UInt32.size ∧ (Parse.ofText text).tooDeep = false ∧
      document = ⟨text, .ofText text, .ofText text⟩ := by
  rcases ofText_cases text with ⟨large, failed⟩ | ⟨-, deep, failed⟩ | ⟨small, shallow, opened⟩
  · simp only [failed, reduceCtorEq, Nat.not_lt.mpr large, false_and]
  · simp only [failed, deep, reduceCtorEq, false_and, and_false]
  · simp only [opened, Except.ok.injEq, small, shallow, true_and, eq_comm]

/-- A text without a tree is too large or too deep, and the failure says which. -/
theorem ofText_eq_error_iff {failure : ParseFailure} :
    ofText text = .error failure ↔
      (UInt32.size ≤ text.bytes ∧ failure = .tooLarge text.bytes) ∨
        text.bytes < UInt32.size ∧ (Parse.ofText text).tooDeep = true ∧
          failure = .tooDeep Grammar.depthLimit := by
  rcases ofText_cases text with ⟨large, failed⟩ | ⟨small, deep, failed⟩ | ⟨small, shallow, opened⟩
  · simp only [failed, Except.error.injEq, large, true_and, Nat.not_lt.mpr large, false_and,
      or_false, eq_comm]
  · simp only [failed, Except.error.injEq, small, deep, true_and, Nat.not_le.mpr small, false_and,
      false_or, eq_comm]
  · simp only [opened, reduceCtorEq, Nat.not_le.mpr small, shallow, false_and, and_false, or_self]

theorem eq_of_ofText (opened : ofText text = .ok document) :
    document = ⟨text, .ofText text, .ofText text⟩ ∧ (Parse.ofText text).tooDeep = false := by
  obtain ⟨-, shallow, rfl⟩ := ofText_eq_ok_iff.mp opened
  exact ⟨rfl, shallow⟩

theorem ofText_of_shallow (small : text.bytes < UInt32.size)
    (shallow : (Parse.ofText text).tooDeep = false) :
    ofText text = .ok ⟨text, .ofText text, .ofText text⟩ :=
  ofText_eq_ok_iff.mpr ⟨small, shallow, rfl⟩

end Document

end Scrapscript
