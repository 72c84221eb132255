import Mathlib.Order.Bounds.Basic
import Scrapscript.Proofs.Text.Lines

/-!
Offsets and positions. The position of an offset counts the line breaks and the UTF-16 units before
it, and the offset of a position is the last one on its line that is not past it. Neither takes a
larger number away from a smaller one on the way.
-/

namespace Scrapscript

open Scrapscript.Text

theorem Position.le_refl (position : Position) : position ≤ position := by
  rintro (line | ⟨-, column⟩) <;> omega

/-- A range of positions in order keeps its ends. -/
theorem Range.between_of_le {start stop : Position} (ordered : start ≤ stop) :
    (Range.between start stop).start = start ∧ (Range.between start stop).stop = stop := by
  have kept : ¬ stop < start := ordered
  simp [Range.between, kept]

/-- The offsets of the character boundaries that lie on the line of a position and not past it. -/
def Text.reach (text : Text) (position : Position) : Set Nat :=
  {offset | ∃ before : Text, before <+: text ∧ before.bytes = offset ∧
    before.endPosition.line = position.line ∧ before.endPosition.character ≤ position.character}

namespace LineIndex

/-- Each difference that is taken to find the position of an offset is one from the larger number:
some line starts there or earlier, the line found is such a one, and no correction of the column
takes away more than has been counted. -/
structure LocatesSafely (index : LineIndex) (offset : Nat) : Prop where
  found : 0 < (index.lines.takeWhile (·.start ≤ min offset index.length)).length
  listed : (index.lineColumn offset).1 < index.lines.length
  started : (index.line (index.lineColumn offset).1).start ≤ min offset index.length
  corrected : ∀ before wide after,
    (index.line (index.lineColumn offset).1).wide = before ++ wide :: after →
    wide.stop ≤ (index.lineColumn offset).2 →
    wide.start ≤ wide.stop ∧
      wide.width ≤ before.foldl (WideChar.correct (index.lineColumn offset).2)
        (index.lineColumn offset).2

/-- Each difference that is taken to find the offset of a position on a line is one from the larger
number, wherever the walk over the line's wide characters has come to. No sum on the way is larger
than the column and the bytes of the line together. -/
structure SearchesSafely (index : LineIndex) (position : Position) (line : Line) : Prop where
  broken : ∀ next, index.lines[position.line + 1]? = some next → 0 < next.start
  ordered : line.start ≤ index.lineStop position.line
  walked : ∀ before after walk, line.wide = before ++ after →
    before.foldlM (Walk.step position.character) Walk.start = .ok walk →
    walk.units ≤ position.character ∧
      walk.bytes + (position.character - walk.units) ≤
        position.character + (index.lineStop position.line - line.start) ∧
      ∀ wide ∈ after.head?, walk.cursor ≤ wide.start ∧ wide.start ≤ wide.stop ∧
        walk.units + (wide.start - walk.cursor) + wide.units ≤
          index.lineStop position.line - line.start ∧
        walk.bytes + (wide.start - walk.cursor) + wide.width ≤
          index.lineStop position.line - line.start

variable {text head content tail : Text}

/-- The offset of a position on a line is where the longest beginning of the line stops that does
not go past the position. -/
theorem offset?_floor (divides : Divides text head content tail) (character : Nat) :
    ∃ first, IsFloor content character first ∧
      (ofText text).offset? ⟨head.count '\n', character⟩ = some (head ++ first).bytes := by
  have found := getElem?_lines divides
  obtain ⟨first, floor, size⟩ :=
    Line.byteColumn_floor (congrArg Line.wide (line_ofText divides)) character
  rw [line_ofText divides] at size
  refine ⟨first, floor, ?_⟩
  simp only [offset?, found, lineStop_ofText divides, Nat.add_sub_cancel_left, size, bytes_append]

theorem isGreatest_floor (divides : Divides text head content tail) {first : Text}
    {character : Nat} (floor : IsFloor content character first) :
    IsGreatest (text.reach ⟨head.count '\n', character⟩) (head ++ first).bytes := by
  constructor
  · refine ⟨head ++ first, divides.begins floor.begins, rfl, ?_⟩
    rw [divides.endPosition floor.begins]
    exact ⟨rfl, floor.fits⟩
  · rintro _ ⟨before, begins, rfl, line, column⟩
    obtain ⟨other, starts, rfl⟩ := divides.exists_of_begins begins line
    rw [divides.endPosition starts] at column
    obtain ⟨more, rfl⟩ := floor.longest other starts column
    simp only [bytes_append]
    omega

theorem offset?_eq_none_iff (position : Position) :
    (ofText text).offset? position = none ↔ text.count '\n' < position.line := by
  rw [← Nat.succ_le_iff, Nat.succ_eq_add_one, ← length_lines, ← List.getElem?_eq_none_iff, offset?]
  cases (ofText text).lines[position.line]? <;> simp

/-- The offset of a position is the last one on its line that is not past it. -/
theorem offset?_eq_some_iff {position : Position} {offset : Nat} :
    (ofText text).offset? position = some offset ↔ IsGreatest (text.reach position) offset := by
  have exists_line (inside : position.line ≤ text.count '\n') :
      ∃ other, (ofText text).offset? position = some other ∧
        IsGreatest (text.reach position) other := by
    obtain ⟨head, content, tail, divides, number⟩ := exists_divides inside
    obtain ⟨first, floor, found⟩ := offset?_floor divides position.character
    have greatest := isGreatest_floor divides floor
    rw [number] at found greatest
    exact ⟨_, found, greatest⟩
  constructor
  · intro found
    have inside : position.line ≤ text.count '\n' := by
      rw [← Nat.not_lt, ← offset?_eq_none_iff, found]
      simp
    obtain ⟨other, same, greatest⟩ := exists_line inside
    rwa [Option.some.inj (found.symm.trans same)]
  · intro greatest
    obtain ⟨before, ⟨after, split⟩, -, line, -⟩ := greatest.1
    have inside : position.line ≤ text.count '\n' := by
      rw [← line, ← split, List.count_append]
      exact Nat.le_add_right _ _
    obtain ⟨other, found, also⟩ := exists_line inside
    rw [found, greatest.unique also]

section

variable {before later : Text} (begins : before <+: text) (laterBegins : later <+: text)

include begins laterBegins

/-- Later character boundaries have later positions. -/
theorem endPosition_lt_of_bytes_lt (shorter : before.bytes < later.bytes) :
    before.endPosition < later.endPosition := by
  rcases List.prefix_or_prefix_of_prefix begins laterBegins with ⟨more, rfl⟩ | ⟨more, rfl⟩
  · apply endPosition_lt
    rintro rfl
    simp at shorter
  · rw [bytes_append] at shorter
    omega

theorem endPosition_le_of_bytes_le (shorter : before.bytes ≤ later.bytes) :
    before.endPosition ≤ later.endPosition := by
  rcases List.prefix_or_prefix_of_prefix begins laterBegins with ⟨more, rfl⟩ | ⟨more, rfl⟩
  · cases more with
    | nil => simp [Position.le_refl]
    | cons char more => exact Position.le_of_lt (endPosition_lt before (by simp))
  · cases more with
    | nil => simp [Position.le_refl]
    | cons char more =>
        have positive := char.utf8Size_pos
        simp only [bytes_append, bytes] at shorter
        omega

end

/-- The position of a character boundary leads back to it. -/
theorem offset?_position {before : Text} (begins : before <+: text) :
    (ofText text).offset? ((ofText text).position before.bytes) = some before.bytes := by
  rw [position_bytes begins, offset?_eq_some_iff]
  refine ⟨⟨before, begins, rfl, rfl, Nat.le_refl _⟩, ?_⟩
  rintro _ ⟨other, otherBegins, rfl, line, column⟩
  refine Nat.le_of_not_lt fun past => ?_
  obtain later | ⟨-, later⟩ := endPosition_lt_of_bytes_lt begins otherBegins past
  · omega
  · omega

theorem offset?_start (text : Text) : (ofText text).offset? ⟨0, 0⟩ = some 0 := by
  have back := offset?_position (List.nil_prefix (l := text))
  rwa [position_bytes List.nil_prefix] at back

/-- The count of the lines tells which positions have an offset as long as it is right. -/
theorem lineCount_tells_iff (text : Text) :
    (∀ position, (ofText text).offset? position = none ↔
        (ofText text).lineCount ≤ position.line) ↔ text.count '\n' + 1 < UInt32.size := by
  rw [← lineCount_eq_iff]
  constructor
  · intro tells
    have past := (tells ⟨(ofText text).lineCount, 0⟩).mpr (Nat.le_refl _)
    rw [offset?_eq_none_iff] at past
    have fewer : (ofText text).lineCount ≤ text.count '\n' + 1 :=
      lineCount_ofText text ▸ Nat.mod_le _ _
    exact Nat.le_antisymm fewer past
  · intro right position
    rw [offset?_eq_none_iff, right, Nat.succ_le_iff]

theorem bytes_breaks (count : Nat) : Text.bytes (List.replicate count '\n') = count := by
  rw [bytes_replicate]
  exact Nat.mul_one count

theorem lineCount_breaks (count : Nat) :
    (ofText (List.replicate count '\n')).lineCount = (count + 1) % UInt32.size := by
  rw [lineCount_ofText, List.count_replicate_self]

/-- The lines that an offset lies on or after begin with the first line. -/
theorem found_line (text : Text) (offset : Nat) :
    0 < ((ofText text).lines.takeWhile (·.start ≤ offset)).length := by
  have first := getElem?_lines (divides_at [] text)
  obtain ⟨rest, lines⟩ : ∃ rest, (ofText text).lines = _ :: rest :=
    List.head?_eq_some_iff.mp (List.head?_eq_getElem? ▸ first)
  rw [lines, List.takeWhile_cons_of_pos (by simp [earlierLines, bytes])]
  exact Nat.succ_pos _

theorem locatesSafely (text : Text) (offset : Nat) : (ofText text).LocatesSafely offset := by
  have found := found_line text (min offset (ofText text).length)
  obtain ⟨later, split⟩ : (ofText text).lines.takeWhile (·.start ≤ min offset (ofText text).length)
      <+: (ofText text).lines := List.takeWhile_prefix _
  generalize taken : (ofText text).lines.takeWhile _ = reached at found split
  have number : ((ofText text).lineColumn offset).1 = reached.length - 1 := by
    rw [← taken]
    rfl
  have listed : ((ofText text).lineColumn offset).1 < (ofText text).lines.length := by
    rw [number, ← split, List.length_append]
    omega
  refine ⟨taken ▸ found, listed, ?_, ?_⟩
  · have member : (ofText text).line ((ofText text).lineColumn offset).1 ∈ reached := by
      have inside : reached.length - 1 < reached.length := by omega
      rw [line, number, ← split, List.getD_eq_getElem?_getD, List.getElem?_append_left inside,
        List.getElem?_eq_getElem inside]
      exact List.getElem_mem inside
    rw [← taken] at member
    simpa using List.mem_takeWhile_imp member
  · rw [length_lines] at listed
    obtain ⟨head, content, tail, divides, same⟩ := exists_divides (Nat.le_of_lt_succ listed)
    have wide := congrArg Line.wide (line_ofText divides)
    rw [same] at wide
    intro before next after split passed
    exact Line.correct_no_underflow wide split passed

theorem searchesSafely {position : Position} {line : Line}
    (found : (ofText text).lines[position.line]? = some line) :
    (ofText text).SearchesSafely position line := by
  have inside : position.line < (ofText text).lines.length := (List.getElem?_eq_some_iff.mp found).1
  rw [length_lines] at inside
  obtain ⟨head, content, tail, divides, same⟩ := exists_divides (Nat.le_of_lt_succ inside)
  have stop := lineStop_ofText divides
  have listed := getElem?_lines divides
  have next := getElem?_next divides
  rw [same] at stop listed next
  obtain rfl := Option.some.inj (found.symm.trans listed)
  have size : (ofText text).lineStop position.line - head.bytes = content.bytes := by omega
  refine ⟨?_, by simp [stop], ?_⟩
  · intro other later
    rcases next with ⟨-, none⟩ | ⟨next, listed, start⟩
    · simp [none] at later
    · obtain rfl := Option.some.inj (later.symm.trans listed)
      omega
  · intro before after walk split walked
    obtain ⟨fits, within, ahead⟩ := Line.walk_no_underflow rfl split walked
    rw [size]
    exact ⟨fits, by omega, ahead⟩

/-- The position of a character boundary is where an editor stands at the end of the text before
it, and an offset past the end stands for the end. There is one line more than there are line
breaks; the count says so unless there are `2 ^ 32` lines or more, of which it keeps 32 bits. Later
boundaries have later positions, so that a range keeps its ends. No offset makes a difference fall
below zero. -/
theorem position_eq_endPosition (text : Text) :
    (∀ before : Text, before <+: text →
        (ofText text).position before.bytes = before.endPosition) ∧
      (∀ offset, text.bytes ≤ offset →
        (ofText text).position offset = (ofText text).position text.bytes) ∧
      (ofText text).lineCount = (text.count '\n' + 1) % UInt32.size ∧
      ((ofText text).lineCount = text.count '\n' + 1 ↔ text.count '\n' + 1 < UInt32.size) ∧
      (∀ before later : Text, before <+: text → later <+: text → before.bytes < later.bytes →
        (ofText text).position before.bytes < (ofText text).position later.bytes) ∧
      (∀ before later : Text, before <+: text → later <+: text → before.bytes ≤ later.bytes →
        ((ofText text).range before.bytes later.bytes).start =
            (ofText text).position before.bytes ∧
          ((ofText text).range before.bytes later.bytes).stop =
            (ofText text).position later.bytes) ∧
      ∀ offset, (ofText text).LocatesSafely offset := by
  refine ⟨fun before begins => position_bytes begins, ?_, lineCount_ofText text,
    lineCount_eq_iff text, ?_, ?_, locatesSafely text⟩
  · intro offset past
    simp only [position, lineColumn, length_ofText, Nat.min_self, Nat.min_eq_right past]
  · intro before later begins laterBegins shorter
    rw [position_bytes begins, position_bytes laterBegins]
    exact endPosition_lt_of_bytes_lt begins laterBegins shorter
  · intro before later begins laterBegins shorter
    apply Range.between_of_le
    rw [position_bytes begins, position_bytes laterBegins]
    exact endPosition_le_of_bytes_le begins laterBegins shorter

example : (ofText "é𝄞x".toList).position 6 = ⟨0, 3⟩ := by decide

/-- A text of `2 ^ 32 - 1` line breaks has offsets of 32 bits, but one line more than can be
counted. -/
theorem lineCount_wraps :
    Text.bytes (List.replicate 4294967295 '\n') < UInt32.size ∧
      (ofText (List.replicate 4294967295 '\n')).lineCount = 0 ∧
      (ofText (List.replicate 4294967295 '\n')).lineCount ≠
        (List.replicate 4294967295 '\n').count '\n' + 1 := by
  have wraps : (ofText (List.replicate 4294967295 '\n')).lineCount = 0 := lineCount_breaks _
  refine ⟨?_, wraps, ?_⟩
  · rw [bytes_breaks]
    decide
  · rw [wraps, List.count_replicate_self]
    omega

/-- A position has no offset exactly if its line does not exist; otherwise its offset is the last
character boundary on the line that is not past it. So it is a character boundary, it does not
decrease with the column, and it is the offset again that a position was taken of. No position makes
a difference fall below zero. The count of the lines tells which lines exist as long as it fits into
32 bits. -/
theorem offset?_eq_greatest (text : Text) :
    (∀ position, (ofText text).offset? position = none ↔ text.count '\n' < position.line) ∧
      ((∀ position, (ofText text).offset? position = none ↔
        (ofText text).lineCount ≤ position.line) ↔ text.count '\n' + 1 < UInt32.size) ∧
      (∀ position offset, (ofText text).offset? position = some offset ↔
        IsGreatest (text.reach position) offset) ∧
      (∀ position offset, (ofText text).offset? position = some offset →
        ∃ before : Text, before <+: text ∧ before.bytes = offset) ∧
      (∀ line column later offset laterOffset, column ≤ later →
        (ofText text).offset? ⟨line, column⟩ = some offset →
        (ofText text).offset? ⟨line, later⟩ = some laterOffset → offset ≤ laterOffset) ∧
      (∀ before : Text, before <+: text →
        (ofText text).offset? ((ofText text).position before.bytes) = some before.bytes) ∧
      ∀ position line, (ofText text).lines[position.line]? = some line →
        (ofText text).SearchesSafely position line := by
  refine ⟨offset?_eq_none_iff, lineCount_tells_iff text, fun _ _ => offset?_eq_some_iff, ?_, ?_,
    fun _ => offset?_position, fun _ _ found => searchesSafely found⟩
  · intro position offset found
    obtain ⟨before, begins, size, -⟩ := (offset?_eq_some_iff.mp found).1
    exact ⟨before, begins, size⟩
  · intro line column later offset laterOffset ordered found laterFound
    apply (offset?_eq_some_iff.mp laterFound).2
    obtain ⟨before, begins, size, same, within⟩ := (offset?_eq_some_iff.mp found).1
    exact ⟨before, begins, size, same, Nat.le_trans within ordered⟩

-- A column inside a surrogate pair leads to the start of the pair.
example : (ofText "é𝄞x".toList).offset? ⟨0, 2⟩ = some 2 := by decide

/-- In a text of `2 ^ 32 - 1` line breaks the first line has an offset, but by the count there is no
line. -/
theorem offset?_despite_lineCount :
    Text.bytes (List.replicate 4294967295 '\n') < UInt32.size ∧
      (ofText (List.replicate 4294967295 '\n')).offset? ⟨0, 0⟩ = some 0 ∧
      (ofText (List.replicate 4294967295 '\n')).lineCount = 0 ∧
      ¬ ∀ position, (ofText (List.replicate 4294967295 '\n')).offset? position = none ↔
        (ofText (List.replicate 4294967295 '\n')).lineCount ≤ position.line := by
  have first := offset?_start (List.replicate 4294967295 '\n')
  have wraps : (ofText (List.replicate 4294967295 '\n')).lineCount = 0 := lineCount_breaks _
  refine ⟨?_, first, wraps, fun agrees => ?_⟩
  · rw [bytes_breaks]
    decide
  · have absent := (agrees ⟨0, 0⟩).mpr (Nat.le_of_eq wraps)
    exact Option.some_ne_none _ (first.symm.trans absent)

end LineIndex

end Scrapscript
