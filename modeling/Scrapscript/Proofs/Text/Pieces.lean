import Scrapscript.Proofs.Text.Lines

/-!
A text as the list of its lines. The line with a given number is the content between the line breaks
around it.
-/

namespace Scrapscript

namespace Text

theorem lines_eq_splitOn (text : Text) : text.lines = text.splitOn '\n' := by
  induction text with
  | nil => rfl
  | cons char rest inductionHypothesis =>
      rw [lines] at inductionHypothesis ⊢
      rw [pieces, inductionHypothesis, List.splitOn_cons_eq_if_modifyHead]
      by_cases newline : char = '\n'
      · simp [newline]
      · cases split : rest.splitOn '\n' with
        | nil => exact absurd split (List.splitOn_ne_nil _ _)
        | cons => simp [newline]

theorem length_splitOn (text : Text) : (text.splitOn '\n').length = text.count '\n' + 1 := by
  induction text with
  | nil => rfl
  | cons char rest inductionHypothesis =>
      rw [List.splitOn_cons_eq_if_modifyHead]
      by_cases newline : char = '\n'
      · simp [newline, inductionHypothesis]
      · simp [newline, inductionHypothesis]

theorem notMem_of_mem_splitOn {text line : Text} (listed : line ∈ text.splitOn '\n') :
    '\n' ∉ line := by
  induction text generalizing line with
  | nil =>
      rw [List.splitOn_nil, List.mem_singleton] at listed
      simp [listed]
  | cons char rest inductionHypothesis =>
      rw [List.splitOn_cons_eq_if_modifyHead] at listed
      by_cases newline : char = '\n'
      · simp only [newline, beq_self_eq_true, if_true, List.mem_cons] at listed
        rcases listed with rfl | listed
        · simp
        · exact inductionHypothesis listed
      · cases split : rest.splitOn '\n' with
        | nil => exact absurd split (List.splitOn_ne_nil _ _)
        | cons first others =>
            rw [split] at inductionHypothesis listed
            simp only [beq_iff_eq, newline, if_false, List.modifyHead_cons, List.mem_cons] at listed
            rcases listed with rfl | listed
            · simpa [eq_comm, newline] using inductionHypothesis (.head _)
            · exact inductionHypothesis (.tail _ listed)

variable {text head content tail : Text}

/-- A line is found at the number of line breaks before it. -/
theorem Divides.getElem?_splitOn (divides : Divides text head content tail) :
    (text.splitOn '\n')[head.count '\n']? = some content := by
  have first : ((content ++ tail).splitOn '\n')[0]? = some content := by
    rcases divides.eq_nil_or_cons with rfl | ⟨rest, rfl⟩
    · rw [List.append_nil, List.splitOn_eq_singleton divides.plain]
      rfl
    · rw [List.splitOn_append_cons_self, List.splitOn_eq_singleton divides.plain]
      rfl
  rcases List.eq_nil_or_concat' head with rfl | ⟨front, last, rfl⟩
  · simpa [divides.split] using first
  · -- The head ends with a line break, since nothing of it is on the line.
    have newline : last = '\n' := by
      by_contra visible
      have opens := divides.opens
      rw [lastLine_append front (by simpa using Ne.symm visible)] at opens
      simp at opens
    have regrouped : text = front ++ '\n' :: (content ++ tail) := by simp [divides.split, newline]
    have earlier := length_splitOn front
    rw [regrouped, List.splitOn_append_cons_self,
      List.getElem?_append_right (by simp [earlier, newline])]
    simpa [earlier, newline] using first

/-- The text without a carriage return at its end. -/
def withoutReturn (line : Text) : Text :=
  if line.getLast? = some '\r' then line.dropLast else line

theorem withoutLast_return (line : Text) : line.withoutLast '\r' = line.withoutReturn := by
  rcases List.eq_nil_or_concat' line with rfl | ⟨front, last, rfl⟩
  · rfl
  · by_cases isReturn : last = '\r'
    · simp [withoutLast, withoutFirst, withoutReturn, isReturn]
    · simp [withoutLast, withoutFirst, withoutReturn, isReturn]

theorem withoutReturn_begins (line : Text) : line.withoutReturn <+: line := by
  rw [withoutReturn]
  split
  · exact List.dropLast_prefix line
  · exact List.prefix_rfl

end Text

end Scrapscript
